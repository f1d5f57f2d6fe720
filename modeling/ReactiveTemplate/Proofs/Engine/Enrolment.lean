import ReactiveTemplate.Engine.Scan
import ReactiveTemplate.Proofs.Document.Counts
import ReactiveTemplate.Proofs.Engine.Restoring

/-!
# Bindings of zones in any place

Zones may lie inside each other, so an element can be out of its slot when a further binding is
made for it, and a registration may fail. Whatever is registered, the document can be restored, and
the listeners of each node are those it had and those of its bindings.

* `Attended`: the listeners that bindings have added.
* `Enrolled`: the invariant while bindings are made.
* `Enrols`: what the attempt to make a directive gives.
* `Page.draft_enrols`: every declaration keeps the invariant.
-/

namespace ReactiveTemplate

variable {t₀ t t' : HostTree Reaction} {shows P : NodeId → Prop} {bs front back : List Binding}
  {b c d : Binding} {x y z p q o node copy placeholder : NodeId} {os : List NodeId}

/-! ## Listeners -/

/-- The listeners that a binding has added to its node. -/
def Binding.hooks (b : Binding) : List Nat :=
  match b.directive with
  | .model _ listener => [listener]
  | .events listeners => listeners
  | _ => []

/-- The listeners that bindings have added to a node. -/
def hooksOf (bs : List Binding) (x : NodeId) : List Nat :=
  bs.flatMap fun b => if b.node = x then b.hooks else []

theorem hooksOf_append (bs : List Binding) (b : Binding) (x : NodeId) :
    hooksOf (bs ++ [b]) x = hooksOf bs x ++ if b.node = x then b.hooks else [] := by
  rw [hooksOf, List.flatMap_append, List.flatMap_singleton, hooksOf]

/-- The listeners of some nodes are those of the first document and those that bindings have added,
    in the order of the bindings. -/
structure Attended (t₀ : HostTree Reaction) (P : NodeId → Prop) (bs : List Binding)
    (t : HostTree Reaction) : Prop where
  added : ∀ x, P x → ∃ ls, t.listenersOf x = t₀.listenersOf x ++ ls ∧
    ls.map Listener.id = hooksOf bs x
  /-- The numbers of the added listeners are new. -/
  later : ∀ b ∈ bs, ∀ l ∈ b.hooks, t₀.nextListener ≤ l
  distinct : (bs.flatMap Binding.hooks).Nodup

theorem Attended.start : Attended t₀ P [] t₀ where
  added _ _ := ⟨[], (List.append_nil _).symm, rfl⟩
  later := nofun
  distinct := List.nodup_nil

/-- While the listeners stay, so does what is known of them. -/
theorem Attended.same (h : Attended t₀ P bs t) (hsame : ∀ x, P x → t'.listenersOf x = t.listenersOf x) :
    Attended t₀ P bs t' where
  added x hx := by
    rw [hsame x hx]
    exact h.added x hx
  later := h.later
  distinct := h.distinct

/-- A binding without listeners. -/
theorem Attended.append (h : Attended t₀ P bs t) (hhooks : d.hooks = []) :
    Attended t₀ P (bs ++ [d]) t where
  added x hx := by
    rw [hooksOf_append, hhooks, ite_self, List.append_nil]
    exact h.added x hx
  later b hb l hl := by
    rcases List.mem_append.1 hb with hb | hb
    · exact h.later b hb l hl
    · rw [List.mem_singleton.1 hb, hhooks] at hl
      cases hl
  distinct := by
    rw [List.flatMap_append, List.flatMap_singleton, hhooks, List.append_nil]
    exact h.distinct

/-- A binding with one more listener, whose number is higher than those of the others. -/
theorem Attended.hook {l : Listener Reaction} {listener : Nat} (h : Attended t₀ P (bs ++ [b]) t)
    (hnode : c.node = b.node) (hhooks : c.hooks = b.hooks ++ [listener])
    (hlisteners : ∀ x, t'.listenersOf x = t.listenersOf x ++ if x = b.node then [l] else [])
    (hid : l.id = listener) (hlater : t₀.nextListener ≤ listener)
    (hhigher : ∀ d ∈ bs ++ [b], ∀ k ∈ d.hooks, k < listener) : Attended t₀ P (bs ++ [c]) t' where
  added x hx := by
    obtain ⟨ls, hls, hids⟩ := h.added x hx
    refine ⟨ls ++ if x = b.node then [l] else [], ?_, ?_⟩
    · rw [hlisteners, hls, List.append_assoc]
    · rw [List.map_append, hids, hooksOf_append, hooksOf_append, hnode, hhooks, List.append_assoc]
      by_cases hx : x = b.node
      · rw [if_pos hx, if_pos hx.symm, if_pos hx.symm, List.map_singleton, hid]
      · rw [if_neg hx, if_neg (Ne.symm hx), if_neg (Ne.symm hx)]
        rfl
  later d hd k hk := by
    rcases List.mem_append.1 hd with hd | hd
    · exact h.later d (List.mem_append_left _ hd) k hk
    · rw [List.mem_singleton.1 hd, hhooks] at hk
      rcases List.mem_append.1 hk with hk | hk
      · exact h.later b (by simp) k hk
      · rw [List.mem_singleton.1 hk]
        exact hlater
  distinct := by
    have hdistinct := h.distinct
    rw [List.flatMap_append, List.flatMap_singleton] at hdistinct ⊢
    rw [hhooks, ← List.append_assoc, List.nodup_append]
    refine ⟨hdistinct, List.nodup_singleton _, fun k hk k' hk' => ?_⟩
    rw [List.mem_singleton.1 hk']
    refine Nat.ne_of_lt ?_
    rcases List.mem_append.1 hk with hk | hk
    · obtain ⟨d, hd, hk⟩ := List.mem_flatMap.1 hk
      exact hhigher d (List.mem_append_left _ hd) k hk
    · exact hhigher b (by simp) k hk

/-! ## New nodes -/

namespace HostTree

variable {α : Type} {t t' : HostTree α} {id old new x : NodeId}

theorem nextListener_allocate (t : HostTree α) (node : Node α) :
    (t.allocate node).2.nextListener = t.nextListener := by
  rw [allocate]
  cases t.free <;> rfl

/-- A new placeholder. -/
theorem createPlaceholder_beside (h : t.Sound) (label : String) :
    ∃ placeholder t', t.createPlaceholder label = (placeholder, t') ∧ Beside t.Live t t' ∧
      t'.nextListener = t.nextListener ∧ ¬ t.Live placeholder ∧
      t'.node? placeholder = some { Node.blank .placeholder with data := label } := by
  have hf := h.tree.linked.free
  let node : Node α := { Node.blank .placeholder with data := label }
  refine ⟨(t.allocate node).1, (t.allocate node).2, rfl,
    Beside.create h (guarded_live h) rfl rfl, nextListener_allocate t node, ?_, ?_⟩
  · exact not_live_iff.2 (node?_allocate_fresh hf node)
  · rw [node?_allocate hf, if_pos rfl]

theorem nextListener_cloneEach
    {clone : HostTree α → NodeId → Except HostError NodeId × HostTree α}
    (hclone : ∀ t id, (clone t id).2.nextListener = t.nextListener) (parent : NodeId)
    (ids : List NodeId) :
    ∀ t : HostTree α, (cloneEach clone parent ids t).2.nextListener = t.nextListener := by
  induction ids with
  | nil => exact fun t => rfl
  | cons child rest ih =>
    intro t
    rw [cloneEach]
    have hchild := hclone t child
    rcases hcopy : clone t child with ⟨_ | copy, t₁⟩
    · rw [hcopy] at hchild
      exact hchild
    · rw [hcopy] at hchild
      exact (ih _).trans hchild

theorem nextListener_cloneWithin (depth : Nat) :
    ∀ (t : HostTree α) (id : NodeId), (cloneWithin depth t id).2.nextListener = t.nextListener := by
  induction depth with
  | zero => exact fun t id => rfl
  | succ depth ih =>
    intro t id
    rw [cloneWithin]
    cases t.get id with
    | error e => rfl
    | ok node =>
      dsimp only
      generalize hmade : t.allocate _ = made
      have hnew := nextListener_allocate t { node with parent := none, children := [], listeners := [] }
      rw [hmade] at hnew
      have heach := nextListener_cloneEach ih made.1 node.children made.2
      generalize cloneEach (cloneWithin depth) made.1 node.children made.2 = copied at heach ⊢
      rcases copied with ⟨_ | _, t'⟩ <;> exact heach.trans hnew

theorem nextListener_detach (hdetach : t.detach id = .ok t') : t'.nextListener = t.nextListener := by
  simp only [detach, bind, Except.bind, pure, Except.pure] at hdetach
  repeat' split at hdetach
  all_goals cases hdetach
  all_goals rfl

theorem nextListener_replace (t : HostTree α) (old new : NodeId) :
    (t.replace old new).2.nextListener = t.nextListener := by
  rw [replace]
  cases t.get old with
  | error e => rfl
  | ok n =>
    dsimp only
    cases n.parent with
    | none => rfl
    | some parent =>
      dsimp only
      cases hdetach : t.detach new with
      | error e => rfl
      | ok t₁ =>
        have hnext := nextListener_detach hdetach
        dsimp only
        cases t₁.get parent with
        | error e => exact hnext
        | ok p =>
          dsimp only
          cases p.children.idxOf? old <;> exact hnext

/-- What a copy of a node that is there adds to a document. -/
structure Cloned (t t' : HostTree α) (id copy : NodeId) : Prop where
  beside : Beside t.Live t t'
  next : t'.nextListener = t.nextListener
  new : ¬ t.Live copy
  live : t'.Live copy
  loose : t'.parent? copy = none
  figure : t'.figure copy = t.figure id
  whole : ∀ y, t'.Live y → t.Live y ∨ t'.Below copy y
  bare : ∀ name, t.Bare name id → t'.Bare name copy

theorem cloneNode_cloned (h : t.Sound) (hid : t.Live id) :
    ∃ copy t', t.cloneNode id = (.ok copy, t') ∧ t.Cloned t' id copy := by
  have hl := h.tree.linked
  obtain ⟨b, rfl, hb⟩ := exists_holds hl h.tree.acyclic hid
  obtain ⟨copy, t', hclone, hcopy⟩ := cloneNode_spec hl hb
  have hbeside : Beside t.Live t (t.cloneNode b.label).2 := Beside.cloneNode h (guarded_live h)
  have hnext := nextListener_cloneWithin (t.slots.size + 1) t b.label
  rw [← cloneNode] at hnext
  rw [hclone] at hbeside hnext
  refine ⟨copy.label, t', hclone, hbeside, hnext, hcopy.fresh _ copy.label_mem_labels,
    hcopy.holds.live_label, hcopy.loose, ?_, fun y hy => ?_, fun name => hcopy.bare hb⟩
  · have hshape := congrArg Branch.label hcopy.shape
    rwa [Branch.label_map, Branch.label_map] at hshape
  · exact (hcopy.whole y hy).imp_right hcopy.holds.mem_labels_iff.1

end HostTree

/-! ## The invariant -/

/-- The template of a binding that repeats its element. -/
def Binding.template? (b : Binding) : Option NodeId :=
  match b.directive with
  | .repetition _ template _ _ => some template
  | _ => none

/-- The invariant while bindings are made: no text was shown yet and no list was rendered. -/
structure Enrolled (t₀ : HostTree Reaction) (bs : List Binding) (t : HostTree Reaction) : Prop where
  restorable : Restorable t₀ (fun _ => False) bs t
  pristine : ∀ x, t₀.Live x → t.figure x = t₀.figure x
  /-- What stands in for a node is a placeholder without children. -/
  leaves : ∀ b ∈ bs, ∀ os, b.standIn? = some os → ∃ placeholder, os = [placeholder] ∧
    (t.figure placeholder).kind = .placeholder ∧ t.children placeholder = []
  attended : Attended t₀ t₀.Live bs t
  numbered : t₀.nextListener ≤ t.nextListener ∧ ∀ b ∈ bs, ∀ l ∈ b.hooks, l < t.nextListener
  elements : ∀ b ∈ bs, (t₀.figure b.node).kind ≠ .text
  /-- The nodes of a template contain texts only where those of its element do. -/
  templates : ∀ b ∈ bs, ∀ template, b.template? = some template → ∀ name, t₀.Bare name b.node →
    t.Bare name template

/-- Only a binding that has taken its node out of its slot has a template. -/
theorem Binding.template?_of_standIn? (hin : b.standIn? = none) : b.template? = none := by
  rw [standIn?] at hin
  rw [template?]
  cases hdir : b.directive <;> simp_all

theorem Binding.mem_own_of_template? (h : b.template? = some copy) : copy ∈ b.own := by
  rw [template?] at h
  rw [own]
  cases hdir : b.directive <;> simp_all

/-- A binding that has made no nodes puts none into its slot. -/
theorem Binding.standIn?_of_own (hown : b.own = []) : b.standIn? = none := by
  rw [own] at hown
  rw [standIn?]
  cases hdir : b.directive <;> simp_all

namespace Enrolled

theorem start (h : t₀.Sound) : Enrolled t₀ [] t₀ where
  restorable := .start h
  pristine _ _ := rfl
  leaves := nofun
  attended := .start
  numbered := ⟨Nat.le_refl _, nofun⟩
  elements := nofun
  templates := nofun

theorem live (h : Enrolled t₀ bs t) (hx : t₀.Live x) : t.Live x := h.restorable.stays x hx.safe

/-- Further nodes beside those that are there. -/
theorem beside (h : Enrolled t₀ bs t) (ht : t₀.Tree) (hbeside : HostTree.Beside t.Live t t')
    (hnext : t'.nextListener = t.nextListener) : Enrolled t₀ bs t' where
  restorable := h.restorable.keepsPlaces ht hbeside.keepsPlaces
  pristine x hx := by
    rw [HostTree.figure_eq_of_node?_eq (hbeside.same x (h.live hx))]
    exact h.pristine x hx
  leaves b hb os hos := by
    obtain ⟨placeholder, rfl, hkind, hchildren⟩ := h.leaves b hb os hos
    have hown := Binding.mem_own_of_standIn? hos (List.mem_singleton.2 rfl)
    have hsame := hbeside.same placeholder (h.restorable.made b hb placeholder hown).live
    exact ⟨placeholder, rfl, by rwa [HostTree.figure_eq_of_node?_eq hsame],
      by rwa [HostTree.children_eq_of_node?_eq hsame]⟩
  attended := h.attended.same fun x hx => by
    rw [HostTree.listenersOf, hbeside.same x (h.live hx), HostTree.listenersOf]
  numbered := by
    rw [hnext]
    exact h.numbered
  elements := h.elements
  templates b hb template htemplate name hbare := by
    have hlive := (h.restorable.made b hb template (Binding.mem_own_of_template? htemplate)).live
    exact (h.templates b hb template htemplate name hbare).fixed
      (.beside h.restorable.sound.tree.linked hbeside hlive)

/-- A new placeholder, which no binding has made so far. -/
theorem createPlaceholder (h : Enrolled t₀ bs t) (ht : t₀.Tree) (label : String) :
    ∃ placeholder t', t.createPlaceholder label = (placeholder, t') ∧ Enrolled t₀ bs t' ∧
      HostTree.Beside t.Live t t' ∧ ¬ t.Live placeholder ∧
      (Made t₀ (fun _ => False) t' placeholder ∧ t'.parent? placeholder = none) ∧
      (t'.figure placeholder).kind = .placeholder ∧ t'.children placeholder = [] := by
  obtain ⟨placeholder, t', hcreate, hbeside, hnext, hnew, hnode⟩ :=
    HostTree.createPlaceholder_beside h.restorable.sound label
  have hkind : (t'.figure placeholder).kind = .placeholder := by
    rw [HostTree.figure_of_node? hnode]
    rfl
  refine ⟨placeholder, t', hcreate, h.beside ht hbeside hnext, hbeside, hnew,
    ⟨⟨⟨_, hnode⟩, fun hsafe => hnew (h.live hsafe.live), ?_⟩, HostTree.parent?_of_node? hnode⟩,
    hkind, HostTree.children_of_node? hnode⟩
  rw [hkind]
  exact nofun

/-- While bindings are made, nothing but nodes that were below a node, and placeholders for them, is
    below it. -/
theorem below (h : Enrolled t₀ bs t) (ht : t₀.Tree) (hz : t₀.Live z) (hbelow : t.Below z x) :
    (t₀.Live x ∧ t₀.Below z x) ∨ ((t.figure x).kind = .placeholder ∧ t.children x = []) := by
  induction hbelow with
  | refl => exact .inl ⟨hz, HostTree.Below.refl t₀ z⟩
  | @tail y x _ hchild ih =>
    rcases ih with ⟨hy, hbelow⟩ | ⟨-, hleaf⟩
    · rw [h.restorable.slots y hy.outside id] at hchild
      obtain ⟨w, hw, hx⟩ := List.mem_flatMap.1 hchild
      rcases exists_of_mem_standIns hx with rfl | ⟨b, hb, -, os, hos, hx⟩
      · exact .inl ⟨ht.linked.live hw, hbelow.tail hw⟩
      · obtain ⟨placeholder, rfl, hplaceholder⟩ := h.leaves b hb os hos
        rw [List.mem_singleton.1 hx]
        exact .inr hplaceholder
    · rw [hleaf] at hchild
      cases hchild

/-- Nodes with an attribute contain texts only, if they did at the beginning. -/
theorem bare (h : Enrolled t₀ bs t) (ht : t₀.Tree) (hz : t₀.Live z) {name : String}
    (hbare : t₀.Bare name z) : t.Bare name z := by
  intro y hy hattribute c hc
  rcases h.below ht hz hy with ⟨hlive, hbelow⟩ | ⟨-, hleaf⟩
  · rw [h.restorable.slots y hlive.outside id] at hc
    obtain ⟨w, hw, hcw⟩ := List.mem_flatMap.1 hc
    rw [HostTree.attribute?_eq_figure, h.pristine y hlive, ← HostTree.attribute?_eq_figure]
      at hattribute
    have htext := hbare y hbelow hattribute w hw
    -- No binding takes a text out of its slot.
    rcases exists_of_mem_standIns hcw with rfl | ⟨b, hb, rfl, -⟩
    · rw [h.pristine c (ht.linked.live hw)]
      exact htext
    · exact absurd htext (h.elements b hb)
  · rw [hleaf] at hc
    cases hc

/-- A binding that has left its node in its slot. -/
theorem append (h : Enrolled t₀ bs t) (hd : t₀.Live d.node)
    (helement : (t₀.figure d.node).kind ≠ .text) (hin : d.standIn? = none)
    (hmade : ∀ o ∈ d.own, Made t₀ (fun _ => False) t o ∧ t.parent? o = none) (hown : d.own.Nodup)
    (hapart : ∀ c ∈ bs, ∀ o ∈ c.own, o ∉ d.own) (hhooks : d.hooks = []) :
    Enrolled t₀ (bs ++ [d]) t where
  restorable := by
    have hr := h.restorable
    rw [← List.append_nil bs] at hr hapart
    exact hr.add hd.safe hmade hin hown hapart
  pristine := h.pristine
  leaves b hb os hos := by
    rcases List.mem_append.1 hb with hb | hb
    · exact h.leaves b hb os hos
    · rw [List.mem_singleton.1 hb, hin] at hos
      cases hos
  attended := h.attended.append hhooks
  numbered := by
    refine ⟨h.numbered.1, fun b hb l hl => ?_⟩
    rcases List.mem_append.1 hb with hb | hb
    · exact h.numbered.2 b hb l hl
    · rw [List.mem_singleton.1 hb, hhooks] at hl
      cases hl
  elements b hb := by
    rcases List.mem_append.1 hb with hb | hb
    · exact h.elements b hb
    · rw [List.mem_singleton.1 hb]
      exact helement
  templates b hb template htemplate := by
    rcases List.mem_append.1 hb with hb | hb
    · exact h.templates b hb template htemplate
    · rw [List.mem_singleton.1 hb, Binding.template?_of_standIn? hin] at htemplate
      cases htemplate

/-- A binding that has made nothing. -/
theorem append_plain (h : Enrolled t₀ bs t) (hd : t₀.Live d.node)
    (helement : (t₀.figure d.node).kind ≠ .text) (hown : d.own = []) (hhooks : d.hooks = []) :
    Enrolled t₀ (bs ++ [d]) t := by
  refine h.append hd helement (Binding.standIn?_of_own hown) ?_ ?_ ?_ hhooks
  · rw [hown]
    exact nofun
  · rw [hown]
    exact List.nodup_nil
  · rw [hown]
    exact fun _ _ _ _ => List.not_mem_nil

/-- A binding that has taken its node out of its slot. -/
theorem append_out (h : Enrolled t₀ bs t) (ht : t₀.Tree) (hd : t₀.Live d.node)
    (helement : (t₀.figure d.node).kind ≠ .text)
    (htemplate : ∀ template, d.template? = some template → ∀ name, t₀.Bare name d.node →
      t.Bare name template) (hp : t.parent? d.node = some p) (hin : d.standIn? = some [placeholder])
    (hnode : (t.figure placeholder).kind = .placeholder ∧ t.children placeholder = [])
    (hmade : ∀ o ∈ d.own, Made t₀ (fun _ => False) t o ∧ t.parent? o = none) (hown : d.own.Nodup)
    (hapart : ∀ c ∈ bs, ∀ o ∈ c.own, o ∉ d.own)
    (haside : ∀ o ∈ d.aside, o = d.node ∨ o ∈ d.own ∧ o ≠ placeholder) (hhooks : d.hooks = []) :
    ∃ t', t.replace d.node placeholder = (.ok (), t') ∧ Enrolled t₀ (bs ++ [d]) t' ∧
      ∀ x, t'.content x = t.content x := by
  have hr := h.restorable
  rw [← List.append_nil bs] at hr hapart
  obtain ⟨t', hreplace, hr', hswap⟩ := hr.takeOut ht hd.safe hp hin hmade hown hapart haside
  have hnext := HostTree.nextListener_replace t d.node placeholder
  rw [hreplace] at hnext
  have hkeep : ∀ o, (t.figure o).kind = .placeholder ∧ t.children o = [] →
      (t'.figure o).kind = .placeholder ∧ t'.children o = [] := by
    intro o ho
    rw [HostTree.figure_eq_of_content_eq (hswap.content o), hswap.children, ho.2]
    exact ⟨ho.1, rfl⟩
  refine ⟨t', hreplace, ?_, hswap.content⟩
  constructor
  case restorable => exact hr'
  case pristine =>
    intro x hx
    rw [HostTree.figure_eq_of_content_eq (hswap.content x)]
    exact h.pristine x hx
  case leaves =>
    intro b hb os hos
    rcases List.mem_append.1 hb with hb | hb
    · obtain ⟨o, heq, ho⟩ := h.leaves b hb os hos
      exact ⟨o, heq, hkeep o ho⟩
    · rw [List.mem_singleton.1 hb, hin] at hos
      exact ⟨placeholder, (Option.some.inj hos).symm, hkeep placeholder hnode⟩
  case attended =>
    exact (h.attended.append hhooks).same fun x _ =>
      HostTree.listenersOf_eq_of_content_eq (hswap.content x)
  case numbered =>
    rw [hnext]
    refine ⟨h.numbered.1, fun b hb l hl => ?_⟩
    rcases List.mem_append.1 hb with hb | hb
    · exact h.numbered.2 b hb l hl
    · rw [List.mem_singleton.1 hb, hhooks] at hl
      cases hl
  case elements =>
    intro b hb
    rcases List.mem_append.1 hb with hb | hb
    · exact h.elements b hb
    · rw [List.mem_singleton.1 hb]
      exact helement
  case templates =>
    intro b hb template hmember name hbare
    have hbefore : t.Bare name template ∧ ¬ t₀.Safe (fun _ => False) template := by
      rcases List.mem_append.1 hb with hb | hb
      · exact ⟨h.templates b hb template hmember name hbare,
          (h.restorable.made b hb template (Binding.mem_own_of_template? hmember)).new⟩
      · rw [List.mem_singleton.1 hb] at hmember hbare
        exact ⟨htemplate template hmember name hbare,
          (hmade template (Binding.mem_own_of_template? hmember)).1.new⟩
    exact hbefore.1.fixed <| .swapped hswap fun y hy hmem =>
      hbefore.2 (h.restorable.safe_of_below ht hd.safe (hy.tail hmem)).1

section Presence

variable {expression : CompiledExpression}

/-- The binding of an element that is present leaves it in its slot. The placeholder is new. -/
theorem append_present (h : Enrolled t₀ bs t) (hd : t₀.Live d.node)
    (helement : (t₀.figure d.node).kind ≠ .text)
    (hdirective : d.directive = .presence expression placeholder true)
    (hmade : Made t₀ (fun _ => False) t placeholder ∧ t.parent? placeholder = none)
    (hapart : ∀ c ∈ bs, placeholder ∉ c.own) : Enrolled t₀ (bs ++ [d]) t := by
  have hown : d.own = [placeholder] := by rw [Binding.own, hdirective]
  refine h.append hd helement (by rw [Binding.standIn?, hdirective]) (fun o ho => ?_) ?_
    (fun c hc o ho hmem => ?_) (by rw [Binding.hooks, hdirective])
  · rw [hown, List.mem_singleton] at ho
    exact ho ▸ hmade
  · rw [hown]
    exact List.nodup_singleton _
  · rw [hown, List.mem_singleton] at hmem
    exact hapart c hc (hmem ▸ ho)

/-- The binding of an element that is not present takes it out. The placeholder is new. -/
theorem append_absent (h : Enrolled t₀ bs t) (ht : t₀.Tree) (hd : t₀.Live d.node)
    (helement : (t₀.figure d.node).kind ≠ .text)
    (hdirective : d.directive = .presence expression placeholder false)
    (hp : t.parent? d.node = some p)
    (hnode : (t.figure placeholder).kind = .placeholder ∧ t.children placeholder = [])
    (hmade : Made t₀ (fun _ => False) t placeholder ∧ t.parent? placeholder = none)
    (hapart : ∀ c ∈ bs, placeholder ∉ c.own) :
    ∃ t', t.replace d.node placeholder = (.ok (), t') ∧ Enrolled t₀ (bs ++ [d]) t' := by
  have hown : d.own = [placeholder] := by rw [Binding.own, hdirective]
  have haside : ∀ o ∈ d.aside, o = d.node ∨ o ∈ d.own ∧ o ≠ placeholder := by
    intro o ho
    rw [Binding.aside, hdirective] at ho
    exact .inl (List.mem_singleton.1 ho)
  have htemplate : ∀ template, d.template? = some template → ∀ name, t₀.Bare name d.node →
      t.Bare name template := by
    intro template htemplate
    rw [Binding.template?, hdirective] at htemplate
    cases htemplate
  obtain ⟨t', hreplace, h', -⟩ := h.append_out ht hd helement htemplate hp
    (by rw [Binding.standIn?, hdirective]) hnode
    (fun o ho => List.mem_singleton.1 (hown ▸ ho) ▸ hmade) (hown ▸ List.nodup_singleton _)
    (fun c hc o ho hmem => hapart c hc (List.mem_singleton.1 (hown ▸ hmem) ▸ ho)) haside
    (by rw [Binding.hooks, hdirective])
  exact ⟨t', hreplace, h'⟩

end Presence

/-- The binding of a list takes its element out. Its template and its placeholder are new. -/
theorem append_list (h : Enrolled t₀ bs t) (ht : t₀.Tree) (hd : t₀.Live d.node)
    (helement : (t₀.figure d.node).kind ≠ .text) {clause : ForClause} {template : NodeId}
    (hdirective : d.directive = .repetition clause template placeholder [])
    (hbare : ∀ name, t₀.Bare name d.node → t.Bare name template) (hp : t.parent? d.node = some p)
    (hnode : (t.figure placeholder).kind = .placeholder ∧ t.children placeholder = [])
    (hmade : ∀ o, o = template ∨ o = placeholder →
      Made t₀ (fun _ => False) t o ∧ t.parent? o = none) (hne : template ≠ placeholder)
    (hapart : ∀ c ∈ bs, ∀ o ∈ c.own, ¬ (o = template ∨ o = placeholder)) :
    ∃ t', t.replace d.node placeholder = (.ok (), t') ∧ Enrolled t₀ (bs ++ [d]) t' ∧
      t'.Live template := by
  have hown : d.own = [template, placeholder] := by rw [Binding.own, hdirective]
  have hnodup : d.own.Nodup := by
    rw [hown]
    simpa using hne
  have haside : ∀ o ∈ d.aside, o = d.node ∨ o ∈ d.own ∧ o ≠ placeholder := by
    intro o ho
    rw [Binding.aside, hdirective] at ho
    rw [List.mem_singleton.1 ho, hown]
    exact .inr ⟨List.mem_cons_self, hne⟩
  have htemplate : ∀ template', d.template? = some template' → ∀ name, t₀.Bare name d.node →
      t.Bare name template' := by
    intro template' htemplate
    rw [Binding.template?, hdirective] at htemplate
    exact Option.some.inj htemplate ▸ hbare
  obtain ⟨t', hreplace, h', hcontent⟩ := h.append_out ht hd helement htemplate hp
    (by rw [Binding.standIn?, hdirective]) hnode
    (fun o ho => hmade o (List.mem_pair.1 (hown ▸ ho))) hnodup
    (fun c hc o ho hmem => hapart c hc o ho (List.mem_pair.1 (hown ▸ hmem))) haside
    (by rw [Binding.hooks, hdirective])
  exact ⟨t', hreplace, h', (hmade template (.inl rfl)).1.live.of_content (hcontent _)⟩

end Enrolled

/-! ## New listeners -/

/-- A new listener. -/
theorem HostTree.addListener_hooks {α : Type} {t t' : HostTree α} (h : t.Sound) {event : String}
    {action : α} {listener : Nat} (hid : t.Live node)
    (hadd : t.addListener node event action = .ok (listener, t')) :
    listener = t.nextListener ∧ t'.nextListener = t.nextListener + 1 ∧ t.KeepsPlaces t' ∧
      (∀ y, t'.figure y = t.figure y) ∧ ∀ y, t'.listenersOf y =
        t.listenersOf y ++ if y = node then [⟨listener, event, action⟩] else [] := by
  have hsound := h.addListener hadd
  obtain ⟨n, hn⟩ := hid
  let change : Node α → Node α := fun n =>
    { n with listeners := n.listeners ++ [⟨t.nextListener, event, action⟩] }
  have hresult : t.addListener node event action =
      .ok (t.nextListener, { t.modify node change with nextListener := t.nextListener + 1 }) := by
    rw [addListener, update, get_of_node? hn]
    rfl
  rw [hresult] at hadd
  obtain ⟨hlistener, htree⟩ := Prod.mk.inj (Except.ok.inj hadd)
  have hnode : ∀ y, t'.node? y = (t.modify node change).node? y := by
    rw [← htree]
    exact fun _ => rfl
  have hkeeps : t.KeepsPlaces (t.modify node change) :=
    KeepsPlaces.modify h node (fun _ => rfl) (fun _ => rfl) fun _ => rfl
  have hfigure : ∀ y, t'.figure y = t.figure y := by
    intro y
    have hchange : ∀ n, (change n).figure = n.figure := fun _ => rfl
    have hmodified : (t.modify node change).figure y = t.figure y :=
      figure_modify (fun f => f) hchange node y
    exact (figure_eq_of_node?_eq (hnode y)).trans hmodified
  refine ⟨hlistener.symm, by rw [← htree], ⟨hsound, fun y hy => ?_, fun y _ => ?_, fun y hy => ?_,
    fun y hy => ?_⟩, hfigure, fun y => ?_⟩
  · exact (hkeeps.live y hy).of_node? (hnode y)
  · rw [hfigure]
  · exact (parent?_eq_of_node?_eq (hnode y)).trans (hkeeps.parent y hy)
  · exact (children_eq_of_node?_eq (hnode y)).trans (hkeeps.children y hy)
  · rw [listenersOf, hnode, node?_modify]
    split
    · next heq =>
      rw [heq, listenersOf, hn, ← hlistener]
      rfl
    · exact (List.append_nil _).symm

/-- Bindings of a node with some directive could be added to others. -/
def EnrolledWith (t₀ : HostTree Reaction) (bs : List Binding) (node : NodeId) (directive : Directive)
    (t : HostTree Reaction) : Prop :=
  ∀ b : Binding, b.node = node → b.directive = directive → Enrolled t₀ (bs ++ [b]) t

namespace Enrolled

/-- A last binding that has made nothing is forgotten. -/
theorem forget (h : Enrolled t₀ (bs ++ [b]) t) (hown : b.own = []) (hhooks : b.hooks = []) :
    Enrolled t₀ bs t where
  restorable := by
    have hr := h.restorable.drop (.inl (Binding.standIn?_of_own hown))
    rwa [List.append_nil] at hr
  pristine := h.pristine
  leaves c hc := h.leaves c (List.mem_append_left _ hc)
  attended :=
    { added := fun x hx => by
        obtain ⟨ls, hls, hids⟩ := h.attended.added x hx
        rw [hooksOf_append, hhooks, ite_self, List.append_nil] at hids
        exact ⟨ls, hls, hids⟩
      later := fun c hc => h.attended.later c (List.mem_append_left _ hc)
      distinct := by
        have hdistinct := h.attended.distinct
        rwa [List.flatMap_append, List.flatMap_singleton, hhooks, List.append_nil] at hdistinct }
  numbered := ⟨h.numbered.1, fun c hc => h.numbered.2 c (List.mem_append_left _ hc)⟩
  elements c hc := h.elements c (List.mem_append_left _ hc)
  templates c hc := h.templates c (List.mem_append_left _ hc)

/-- The last binding gets a further listener. -/
theorem hook (h : Enrolled t₀ (bs ++ [b]) t) (ht : t₀.Tree) (hb : t₀.Live b.node) (hown : b.own = [])
    (hnode : c.node = b.node) (hownc : c.own = []) {event : String} {action : Reaction}
    {listener : Nat} (hhooks : c.hooks = b.hooks ++ [listener])
    (hadd : t.addListener b.node event action = .ok (listener, t')) :
    Enrolled t₀ (bs ++ [c]) t' := by
  obtain ⟨hlistener, hnext, hkeeps, hfigure, hlisteners⟩ :=
    HostTree.addListener_hooks h.restorable.sound (h.live hb) hadd
  have hnumbered := h.numbered.2
  constructor
  case restorable =>
    have hr := (h.restorable.drop (.inl (Binding.standIn?_of_own hown))).keepsPlaces ht hkeeps
    refine hr.add (hnode ▸ hb.safe) ?_ (Binding.standIn?_of_own hownc) ?_ ?_
    · rw [hownc]
      exact nofun
    · rw [hownc]
      exact List.nodup_nil
    · rw [hownc]
      exact fun _ _ _ _ => List.not_mem_nil
  case pristine =>
    intro x hx
    rw [hfigure]
    exact h.pristine x hx
  case leaves =>
    intro d hd os hos
    rcases List.mem_append.1 hd with hd | hd
    · have hd' : d ∈ bs ++ [b] := List.mem_append_left _ hd
      obtain ⟨placeholder, rfl, hkind, hchildren⟩ := h.leaves d hd' os hos
      have hmem := Binding.mem_own_of_standIn? hos (List.mem_singleton.2 rfl)
      have hlive := (h.restorable.made d hd' placeholder hmem).live
      exact ⟨placeholder, rfl, by rwa [hfigure], by rwa [hkeeps.children placeholder hlive]⟩
    · rw [List.mem_singleton.1 hd, Binding.standIn?_of_own hownc] at hos
      cases hos
  case attended =>
    exact h.attended.hook hnode hhooks hlisteners rfl (hlistener ▸ h.numbered.1)
      (hlistener ▸ hnumbered)
  case numbered =>
    rw [hnext]
    refine ⟨Nat.le_succ_of_le h.numbered.1, fun d hd l hl => ?_⟩
    rcases List.mem_append.1 hd with hd | hd
    · exact Nat.lt_succ_of_lt (hnumbered d (List.mem_append_left _ hd) l hl)
    · rw [List.mem_singleton.1 hd, hhooks] at hl
      rcases List.mem_append.1 hl with hl | hl
      · exact Nat.lt_succ_of_lt (hnumbered b (by simp) l hl)
      · rw [List.mem_singleton.1 hl, hlistener]
        exact Nat.lt_succ_self _
  case elements =>
    intro d hd
    rcases List.mem_append.1 hd with hd | hd
    · exact h.elements d (List.mem_append_left _ hd)
    · rw [List.mem_singleton.1 hd, hnode]
      exact h.elements b (by simp)
  case templates =>
    intro d hd template htemplate name hbare
    rcases List.mem_append.1 hd with hd | hd
    · have hd' : d ∈ bs ++ [b] := List.mem_append_left _ hd
      have hlive := (h.restorable.made d hd' template (Binding.mem_own_of_template? htemplate)).live
      refine (h.templates d hd' template htemplate name hbare).of_figure (fun y hy => ?_) fun y _ =>
        hfigure y
      exact hkeeps.children y (hy.live h.restorable.sound.tree.linked hlive)
    · rw [List.mem_singleton.1 hd,
        Binding.template?_of_standIn? (Binding.standIn?_of_own hownc)] at htemplate
      cases htemplate

end Enrolled

/-- Where the bindings with a directive for events could be added, those with one more listener
    can. -/
theorem EnrolledWith.listen {listeners : List Nat}
    (h : EnrolledWith t₀ bs node (.events listeners) t) (ht : t₀.Tree) (hnode : t₀.Live node)
    {event : String} {action : Reaction} {listener : Nat} {directive : Directive}
    (hown : ∀ b : Binding, b.directive = directive → b.own = [])
    (hhooks : ∀ b : Binding, b.directive = directive → b.hooks = listeners ++ [listener])
    (hadd : t.addListener node event action = .ok (listener, t')) :
    EnrolledWith t₀ bs node directive t' := by
  intro c hc hdirective
  let b : Binding := { c with directive := .events listeners }
  have hb : Enrolled t₀ (bs ++ [b]) t := h b hc rfl
  have haddb : t.addListener b.node event action = .ok (listener, t') := by
    rw [← hadd]
    exact congrArg (fun x => t.addListener x event action) hc
  exact hb.hook ht (hc ▸ hnode) rfl rfl (hown c hdirective) (hhooks c hdirective) haddb

theorem EnrolledWith.start (h : Enrolled t₀ bs t) (hnode : t₀.Live node)
    (helement : (t₀.figure node).kind ≠ .text) :
    EnrolledWith t₀ bs node (.events []) t := fun b hb hdirective =>
  h.append_plain (hb ▸ hnode) (hb ▸ helement) (by rw [Binding.own, hdirective])
    (by rw [Binding.hooks, hdirective])

/-- A directive for events without listeners has left no trace. -/
theorem EnrolledWith.forget (h : EnrolledWith t₀ bs node (.events []) t) : Enrolled t₀ bs t :=
  (h ⟨0, node, "", .events [], none⟩ rfl rfl).forget rfl rfl

/-- To a node that is there a listener can be added. -/
theorem HostTree.addListener_ok {α : Type} {t : HostTree α} (hnode : t.Live node) (event : String)
    (action : α) : ∃ listener t', t.addListener node event action = .ok (listener, t') := by
  obtain ⟨n, hn⟩ := hnode
  rw [addListener, update, get_of_node? hn]
  exact ⟨_, _, rfl⟩

/-! ## Registering -/

/-- What the attempt to make a directive gives: a directive of the kind that was asked for, or
    none. Either way the document can be restored. -/
inductive Enrols (t₀ : HostTree Reaction) (bs : List Binding) (node : NodeId) (kind : DirectiveKind) :
    Except HostError (Option Draft) → HostTree Reaction → Prop
  | failed {e : HostError} {t : HostTree Reaction} (h : Enrolled t₀ bs t) :
      Enrols t₀ bs node kind (.error e) t
  | nothing {t : HostTree Reaction} (h : Enrolled t₀ bs t) : Enrols t₀ bs node kind (.ok none) t
  | made {draft : Draft} {t : HostTree Reaction} (hkind : draft.directive.kind = kind)
      (h : EnrolledWith t₀ bs node draft.directive t) : Enrols t₀ bs node kind (.ok (some draft)) t

namespace Page

variable {page page' : Page} {kind : DirectiveKind} {text : String}

theorem compile_host (page : Page) (text : String) (marker : ContextMarker) :
    (page.compile text marker).2.host = page.host := rfl

theorem evaluate_host (page : Page) (expression : CompiledExpression) (scope : Scope) :
    (page.evaluate expression scope).2.host = page.host := by
  rw [evaluate]
  cases expression.eval? page.state.heap scope <;> rfl

theorem registerExpression_enrols (h : Enrolled t₀ bs page.host) (hnode : t₀.Live node)
    (helement : (t₀.figure node).kind ≠ .text)
    (hkind : kind = .bind ∨ kind = .visibility) :
    Enrols t₀ bs node kind (.ok (some (page.registerExpression kind text).1))
      (page.registerExpression kind text).2.host := by
  rcases hkind with rfl | rfl
  · refine .made rfl fun b hb hdirective =>
      h.append_plain (hb ▸ hnode) (hb ▸ helement) ?_ ?_
    · rw [Binding.own, hdirective]
      rfl
    · rw [Binding.hooks, hdirective]
      rfl
  · refine .made rfl fun b hb hdirective =>
      h.append_plain (hb ▸ hnode) (hb ▸ helement) ?_ ?_
    · rw [Binding.own, hdirective]
      rfl
    · rw [Binding.hooks, hdirective]
      rfl

/-- A new placeholder is the only node that the binding for a presence makes. -/
theorem registerPresence_enrols (h : Enrolled t₀ bs page.host) (ht : t₀.Tree) (hnode : t₀.Live node)
    (helement : (t₀.figure node).kind ≠ .text) :
    Enrols t₀ bs node .presence ((page.registerPresence node text).1.map some)
      (page.registerPresence node text).2.host := by
  rw [registerPresence]
  generalize hcompiled : page.compile text .state = compiled
  have hhost : compiled.2.host = page.host := by
    rw [← hcompiled, compile_host]
  obtain ⟨e, page₁⟩ := compiled
  dsimp only at hhost ⊢
  rw [hhost]
  obtain ⟨placeholder, t₁, hcreate, h₁, -, hnew, hmade, hleaf⟩ :=
    h.createPlaceholder ht (page₁.attributeName .presence ++ " placeholder")
  have hapart : ∀ c ∈ bs, placeholder ∉ c.own := fun c hc ho =>
    hnew (h.restorable.made c hc placeholder ho).live
  rw [hcreate]
  dsimp only
  generalize hevaluated : ({ page₁ with host := t₁ } : Page).evaluate e _ = evaluated
  have hhost₂ : evaluated.2.host = t₁ := by
    rw [← hevaluated, evaluate_host]
  obtain ⟨value, page₂⟩ := evaluated
  dsimp only at hhost₂ ⊢
  split
  · next htruthy =>
    refine .made rfl fun b hb hdirective => ?_
    rw [htruthy] at hdirective
    rw [hhost₂]
    exact h₁.append_present (hb ▸ hnode) (hb ▸ helement) hdirective hmade hapart
  · next habsent =>
    rw [editPartly, hhost₂]
    cases hp : t₁.parent? node with
    | none =>
      rw [HostTree.replace_loose (h₁.live hnode) hp]
      exact .failed h₁
    | some p =>
      have hout : ∀ b : Binding, b.node = node → b.directive = .presence e placeholder false →
          ∃ t₂, t₁.replace node placeholder = (.ok (), t₂) ∧ Enrolled t₀ (bs ++ [b]) t₂ := by
        rintro b rfl hdirective
        exact h₁.append_absent ht hnode helement hdirective hp hleaf hmade hapart
      obtain ⟨t₂, hreplace, -⟩ := hout ⟨0, node, text, .presence e placeholder false, none⟩ rfl rfl
      rw [hreplace]
      refine .made rfl fun b hb hdirective => ?_
      rw [Bool.not_eq_true] at habsent
      rw [habsent] at hdirective
      obtain ⟨t₂', hreplace', h₂⟩ := hout b hb hdirective
      rw [hreplace] at hreplace'
      obtain rfl := (Prod.mk.inj hreplace').2
      exact h₂

/-! ## Templates -/

theorem elementReads_host (kind : DirectiveKind) (item : String) (elements : List NodeId) :
    ∀ found : List String × Page,
      (elements.foldl (elementReads kind item) found).2.host = found.2.host := by
  induction elements with
  | nil => exact fun _ => rfl
  | cons x elements ih =>
    rintro ⟨reads, page⟩
    rw [List.foldl_cons, ih, elementReads]
    cases page.host.attribute? x (page.attributeName kind) <;> rfl

theorem kindReads_ok {found : List String × Page} {template : NodeId} (item : String)
    (kind : DirectiveKind) (hlive : found.2.host.Live template) :
    ∃ found', kindReads item template found kind = (.ok (), found') ∧
      found'.2.host = found.2.host := by
  obtain ⟨n, hn⟩ := hlive
  rw [kindReads, HostTree.withAttribute, HostTree.get_of_node? hn]
  exact ⟨_, rfl, elementReads_host kind item _ found⟩

/-- The expressions of a template that is there are always read. -/
theorem templateReads_ok {template : NodeId} (item : String) (hlive : page.host.Live template) :
    ∃ reads page', page.templateReads item template = (.ok (), reads, page') ∧
      page'.host = page.host := by
  rw [templateReads, templateKinds]
  have hlive₀ : (([], page) : List String × Page).2.host.Live template := hlive
  obtain ⟨found₁, hfirst, hhost₁⟩ := kindReads_ok item .bind hlive₀
  obtain ⟨⟨reads, page'⟩, hsecond, hhost₂⟩ := kindReads_ok item .visibility (hhost₁ ▸ hlive)
  refine ⟨reads, page', ?_, hhost₂.trans hhost₁⟩
  rw [untilFailure_cons hfirst, untilFailure_cons hsecond]
  rfl

/-- A copy of the element and a new placeholder are the nodes that the binding for a repetition
    makes. -/
theorem registerRepetition_enrols (h : Enrolled t₀ bs page.host) (ht : t₀.Tree)
    (hnode : t₀.Live node) (helement : (t₀.figure node).kind ≠ .text) :
    Enrols t₀ bs node .repetition (page.registerRepetition node text).1
      (page.registerRepetition node text).2.host := by
  cases hparse : parseForClause (Text.trim text) with
  | error e =>
    rw [registerRepetition_malformed hparse]
    exact .nothing h
  | ok clause =>
    obtain ⟨template, t₁, hclone, hcloned⟩ :=
      HostTree.cloneNode_cloned h.restorable.sound (h.live hnode)
    have h₁ := h.beside ht hcloned.beside hcloned.next
    have htemplate₁ : Made t₀ (fun _ => False) t₁ template := by
      refine ⟨hcloned.live, fun hsafe => hcloned.new (h.live hsafe.live), ?_⟩
      rw [hcloned.figure, h.pristine node hnode]
      exact helement
    obtain ⟨placeholder, t₂, hcreate, h₂, hbeside, hnew₂, hplaceholder, hleaf⟩ :=
      h₁.createPlaceholder ht (({ page with host := t₁ } : Page).repetitionLabel clause)
    have hsame := hbeside.same template hcloned.live
    have htemplate : Made t₀ (fun _ => False) t₂ template ∧ t₂.parent? template = none := by
      refine ⟨⟨hbeside.keepsPlaces.live _ hcloned.live, htemplate₁.new, ?_⟩, ?_⟩
      · rw [HostTree.figure_eq_of_node?_eq hsame]
        exact htemplate₁.kind
      · rw [HostTree.parent?_eq_of_node?_eq hsame, hcloned.loose]
    have hne : template ≠ placeholder := fun heq => hnew₂ (heq ▸ hcloned.live)
    cases hp : t₂.parent? node with
    | none =>
      have hloose := HostTree.replace_loose (h₂.live hnode) hp placeholder
      rw [registerRepetition_failed hparse hclone hcreate hloose]
      exact .failed h₂
    | some p =>
      have hmade : ∀ o, o = template ∨ o = placeholder →
          Made t₀ (fun _ => False) t₂ o ∧ t₂.parent? o = none := by
        rintro o (rfl | rfl)
        · exact htemplate
        · exact hplaceholder
      have hapart : ∀ c ∈ bs, ∀ o ∈ c.own, ¬ (o = template ∨ o = placeholder) := by
        rintro c hc o ho (rfl | rfl)
        · exact hcloned.new (h.restorable.made c hc o ho).live
        · exact hnew₂ (h₁.restorable.made c hc o ho).live
      have hbare : ∀ name, t₀.Bare name node → t₂.Bare name template := fun name hname =>
        (hcloned.bare name (h.bare ht hnode hname)).fixed
          (.beside h₁.restorable.sound.tree.linked hbeside hcloned.live)
      have hout : ∀ b : Binding, b.node = node →
          b.directive = .repetition clause template placeholder [] →
            ∃ t₃, t₂.replace node placeholder = (.ok (), t₃) ∧ Enrolled t₀ (bs ++ [b]) t₃ ∧
              t₃.Live template := by
        rintro b rfl hdirective
        exact h₂.append_list ht hnode helement hdirective hbare hp hleaf hmade hne hapart
      obtain ⟨t₃, hreplace, -, hlive₃⟩ :=
        hout ⟨0, node, text, .repetition clause template placeholder [], none⟩ rfl rfl
      have hlive : ({ page with host := t₃ } : Page).host.Live template := hlive₃
      obtain ⟨reads, page', hreads, hhost⟩ := templateReads_ok clause.item hlive
      rw [registerRepetition_made hparse hclone hcreate hreplace hreads]
      refine .made rfl fun b hb hdirective => ?_
      obtain ⟨t₃', hreplace', h₃, -⟩ := hout b hb hdirective
      rw [hreplace] at hreplace'
      obtain rfl := (Prod.mk.inj hreplace').2
      rw [hhost]
      exact h₃

/-! ## Inputs and events -/

theorem registerModel_enrols (h : Enrolled t₀ bs page.host) (ht : t₀.Tree) (hnode : t₀.Live node)
    (helement : (t₀.figure node).kind ≠ .text) :
    Enrols t₀ bs node .model (page.registerModel node text).1
      (page.registerModel node text).2.host := by
  rw [registerModel]
  generalize hcompiled : page.compile text .state = compiled
  have hhost : compiled.2.host = page.host := by
    rw [← hcompiled, compile_host]
  obtain ⟨e, page₁⟩ := compiled
  dsimp only at hhost ⊢
  split
  · exact .nothing (hhost ▸ h)
  · next path _ =>
    obtain ⟨listener, t', hadd⟩ :=
      HostTree.addListener_ok (h.live hnode) "input" (Reaction.input path.dotted)
    rw [hhost, hadd]
    refine .made rfl ((EnrolledWith.start h hnode helement).listen ht hnode ?_ ?_ hadd)
    · intro b hdirective
      rw [Binding.own, hdirective]
    · intro b hdirective
      rw [Binding.hooks, hdirective]
      rfl
  · exact .nothing (hhost ▸ h)

/-- The listeners of some entries, one after the other. -/
theorem registerEntries_enrols (ht : t₀.Tree) (hnode : t₀.Live node) (entries : List String) :
    ∀ {listeners : List Nat} {page : Page}, EnrolledWith t₀ bs node (.events listeners) page.host →
      ∃ listeners' page', untilFailure (registerEntry node) entries (listeners, page) =
        (.ok (), listeners', page') ∧ EnrolledWith t₀ bs node (.events listeners') page'.host := by
  induction entries with
  | nil => exact fun h => ⟨_, _, rfl, h⟩
  | cons entry entries ih =>
    intro listeners page h
    obtain ⟨listeners', page', hentry, h'⟩ : ∃ listeners' page',
        registerEntry node (listeners, page) entry = (.ok (), listeners', page') ∧
          EnrolledWith t₀ bs node (.events listeners') page'.host := by
      rw [registerEntry]
      cases splitEntry? entry with
      | none => exact ⟨_, _, rfl, h⟩
      | some found =>
        obtain ⟨event, code⟩ := found
        dsimp only
        cases parseEventAction code with
        | error e => exact ⟨_, _, rfl, h⟩
        | ok action =>
          have hlive := (h ⟨0, node, "", .events listeners, none⟩ rfl rfl).live hnode
          obtain ⟨listener, t', hadd⟩ := HostTree.addListener_ok hlive event (Reaction.run action)
          dsimp only
          rw [hadd]
          refine ⟨_, _, rfl, h.listen ht hnode ?_ ?_ hadd⟩
          · intro b hdirective
            rw [Binding.own, hdirective]
          · intro b hdirective
            rw [Binding.hooks, hdirective]
    obtain ⟨listeners'', page'', hrest, h''⟩ := ih h'
    exact ⟨listeners'', page'', (untilFailure_cons hentry).trans hrest, h''⟩

theorem registerEvents_enrols (h : Enrolled t₀ bs page.host) (ht : t₀.Tree) (hnode : t₀.Live node)
    (helement : (t₀.figure node).kind ≠ .text) :
    Enrols t₀ bs node .events (page.registerEvents node text).1
      (page.registerEvents node text).2.host := by
  obtain ⟨listeners, page', hentries, h'⟩ :=
    registerEntries_enrols ht hnode (eventEntries text) (EnrolledWith.start h hnode helement)
  unfold registerEvents
  rw [hentries]
  cases listeners with
  | nil => exact .nothing h'.forget
  | cons listener listeners => exact .made rfl h'

/-! ## Declarations -/

/-- Whatever a declaration asks for, the document can be restored afterwards. -/
theorem draft_enrols (h : Enrolled t₀ bs page.host) (ht : t₀.Tree) (hnode : t₀.Live node)
    (helement : (t₀.figure node).kind ≠ .text) (kind : DirectiveKind) (text : String) :
    Enrols t₀ bs node kind (page.draft kind node text).1 (page.draft kind node text).2.host := by
  cases kind with
  | bind =>
    show Enrols t₀ bs node .bind (.ok (some (page.registerExpression .bind text).1))
      (page.registerExpression .bind text).2.host
    exact registerExpression_enrols h hnode helement (.inl rfl)
  | visibility =>
    show Enrols t₀ bs node .visibility (.ok (some (page.registerExpression .visibility text).1))
      (page.registerExpression .visibility text).2.host
    exact registerExpression_enrols h hnode helement (.inr rfl)
  | presence =>
    show Enrols t₀ bs node .presence ((page.registerPresence node text).1.map some)
      (page.registerPresence node text).2.host
    exact registerPresence_enrols h ht hnode helement
  | repetition =>
    rw [draft]
    exact registerRepetition_enrols h ht hnode helement
  | model =>
    rw [draft]
    exact registerModel_enrols h ht hnode helement
  | events =>
    rw [draft]
    exact registerEvents_enrols h ht hnode helement

/-- A declaration gives at most one binding, for its element and of its kind. -/
theorem registerDeclaration_enrols (h : Enrolled t₀ bs page.host) (ht : t₀.Tree) {d : Declaration}
    (hnode : t₀.Live d.node) (helement : (t₀.figure d.node).kind ≠ .text) (first : Nat) :
    ∃ made : Option Binding, ∃ page', registerDeclaration first (bs, page) d =
        (bs ++ made.toList, page') ∧ Enrolled t₀ (bs ++ made.toList) page'.host ∧
      ∀ b ∈ made, b.node = d.node ∧ b.kind = d.kind := by
  have henrols := draft_enrols h ht hnode helement d.kind d.text
  rw [registerDeclaration, register]
  generalize page.draft d.kind d.node d.text = drafted at henrols ⊢
  obtain ⟨r, page'⟩ := drafted
  dsimp only at henrols ⊢
  cases henrols with
  | failed h' =>
    refine ⟨none, page'.record _ _ _, congrArg₂ Prod.mk (List.append_nil bs).symm rfl, ?_, nofun⟩
    rw [Option.toList_none, List.append_nil]
    exact h'
  | nothing h' =>
    refine ⟨none, page', congrArg₂ Prod.mk (List.append_nil bs).symm rfl, ?_, nofun⟩
    rw [Option.toList_none, List.append_nil]
    exact h'
  | made hkind h' =>
    refine ⟨some _, page', rfl, h' _ rfl rfl, ?_⟩
    rintro b ⟨⟩
    exact ⟨rfl, hkind⟩

end Page

end ReactiveTemplate
