import ReactiveTemplate.Proofs.Document.Operations

/-!
# Changes beside guarded nodes

With a node that must not be lost go all nodes above it. Changes of other nodes leave such a set
of nodes as they are. Where a change takes out a node or puts one in, the children of every node
are told by what stands in for the one that was there.

* `HostTree.Guarded`: a set of nodes and those above them.
* `HostTree.Beside`: a change that leaves all of them as they are.
* `HostTree.swap`: other nodes in the place of one.
* `HostTree.destroy_removed`: a node taken out.
* `HostTree.replace_swaps`, `HostTree.insertAfter_swaps`: the changes of place.
* `HostTree.setText_keeps`: what a new text leaves of a node that was below the element.
-/

namespace ReactiveTemplate.HostTree

variable {α : Type} {t t' t'' : HostTree α} {P : NodeId → Prop} {id p c old new anchor x y : NodeId}

/-! ## Guarded nodes -/

/-- A set of nodes that are there, and with each node its parent. -/
structure Guarded (P : NodeId → Prop) (t : HostTree α) : Prop where
  live : ∀ y, P y → t.Live y
  above : ∀ y q, P y → t.parent? y = some q → P q

/-- A change that leaves some nodes as they are. -/
structure Beside (P : NodeId → Prop) (t t' : HostTree α) : Prop where
  sound : t'.Sound
  same : ∀ y, P y → t'.node? y = t.node? y

theorem guarded_live (h : t.Sound) : Guarded t.Live t :=
  ⟨fun _ hy => hy, fun _ _ _ hq => h.tree.live_parent hq⟩

theorem Beside.trans (h : Beside P t t') (h' : Beside P t' t'') : Beside P t t'' :=
  ⟨h'.sound, fun y hy => (h'.same y hy).trans (h.same y hy)⟩

theorem Guarded.beside (h : Guarded P t) (hbeside : Beside P t t') : Guarded P t' := by
  refine ⟨fun y hy => (h.live y hy).of_node? (hbeside.same y hy), fun y q hy hq =>
    h.above y q hy ?_⟩
  rw [← parent?_eq_of_node?_eq (hbeside.same y hy), hq]

/-- What lies above a guarded node is guarded. -/
theorem Guarded.of_below (h : Guarded P t) (hl : t.Linked) (hbelow : t.Below x y) (hy : P y) :
    P x := by
  induction hbelow with
  | refl => exact hy
  | tail _ hchild ih => exact ih (h.above _ _ hy (hl.child hchild))

theorem Beside.modify (h : t.Sound) (hid : ¬ P id) {change : Node α → Node α}
    (hparent : ∀ n, (change n).parent = n.parent)
    (hchildren : ∀ n, (change n).children = n.children) : Beside P t (t.modify id change) := by
  refine ⟨h.touch id hparent hchildren, fun y hy => node?_modify_of_ne ?_ change⟩
  rintro rfl
  exact hid hy

/-- A change of a node that went well. -/
theorem eq_modify_of_update {change : Node α → Node α} (h : t.update id change = .ok t') :
    t' = t.modify id change := by
  rw [HostTree.update] at h
  cases hget : t.get id with
  | error e =>
    rw [hget] at h
    cases h
  | ok n =>
    rw [hget] at h
    exact (Except.ok.inj h).symm

theorem Beside.update (h : t.Sound) (hid : ¬ P id) {change : Node α → Node α}
    (hupdate : t.update id change = .ok t') (hparent : ∀ n, (change n).parent = n.parent)
    (hchildren : ∀ n, (change n).children = n.children) : Beside P t t' :=
  eq_modify_of_update hupdate ▸ Beside.modify h hid hparent hchildren

/-- A new node. -/
theorem Beside.create (h : t.Sound) (hguard : Guarded P t) {node : Node α}
    (hparent : node.parent = none) (hchildren : node.children = []) :
    Beside P t (t.allocate node).2 := by
  refine ⟨h.create hparent hchildren, fun y hy => ?_⟩
  obtain ⟨n, hn⟩ := hguard.live y hy
  rw [node?_allocate h.tree.linked.free, if_neg]
  rintro rfl
  rw [node?_allocate_fresh h.tree.linked.free] at hn
  cases hn

theorem Beside.cloneNode (h : t.Sound) (hguard : Guarded P t) : Beside P t (t.cloneNode id).2 := by
  refine ⟨h.cloneNode, fun y hy => ?_⟩
  cases hid : t.node? id with
  | none =>
    rw [HostTree.cloneNode, HostTree.cloneWithin, get_dead hid]
  | some n =>
    obtain ⟨b, rfl, hb⟩ := exists_holds h.tree.linked h.tree.acyclic ⟨n, hid⟩
    obtain ⟨copy, t', hclone, hcopy⟩ := cloneNode_spec h.tree.linked hb
    rw [hclone]
    exact hcopy.kept y (hguard.live y hy)

theorem Beside.setText (h : t.Sound) (hguard : Guarded P t) (hid : ¬ P id) {text : String}
    (hset : t.setText id text = .ok t') : Beside P t t' := by
  refine ⟨h.setText hset, fun y hy => ?_⟩
  have hl := h.tree.linked
  have hne : y ≠ id := by
    rintro rfl
    exact hid hy
  obtain ⟨n, hn, ⟨hkind, -⟩ | rfl⟩ := setText_cases hset
  · obtain ⟨t₁, hset₁, htext⟩ := setText_spec hl hn hkind
      (fun c hc => h.tree.acyclic.not_below hc) text
    rw [hset₁] at hset
    rw [← Except.ok.inj hset]
    refine htext.kept y (hguard.live y hy) hne fun c hc hbelow => hid ?_
    exact hguard.above c id (hguard.of_below hl hbelow hy) (hl.child hc)
  · exact node?_modify_of_ne hne _

/-! ## Destroying -/

/-- What destroying a node does to the nodes that are not below it. -/
structure Removed (t t' : HostTree α) (c : NodeId) : Prop where
  sound : t'.Sound
  content : ∀ y, ¬ t.Below c y → t'.content y = t.content y
  parent : ∀ y, ¬ t.Below c y → t'.parent? y = t.parent? y
  children : ∀ q, ¬ t.Below c q → t'.children q = (t.children q).filter (· != c)

theorem destroy_removed (h : t.Sound) (hc : t.Live c) (hroot : c ≠ root) :
    ∃ t', t.destroy c = .ok t' ∧ t.Removed t' c := by
  obtain ⟨t₁, hdetach, hd⟩ := detach_spec h hc
  have hdestroy : t.destroy c = .ok (t₁.release c) := by
    rw [destroy, if_neg hroot, hdetach]
    rfl
  have hsame : ∀ y, ¬ t.Below c y → (t₁.release c).node? y = t₁.node? y := by
    intro y hy
    refine (release_node? hd.sound.tree.linked hd.sound.tree.acyclic (hd.live hc) y).2 fun hbelow => hy ?_
    exact Below.mono hd.fewer hbelow
  refine ⟨_, hdestroy, hd.sound.release (hd.live hc) hd.free hroot, fun y hy => ?_, fun y hy => ?_,
    fun q hq => ?_⟩
  · rw [content_eq_of_node?_eq (hsame y hy), hd.content]
  · rw [parent?_eq_of_node?_eq (hsame y hy), hd.parent, if_neg]
    rintro rfl
    exact hy (Below.refl t y)
  · rw [children_eq_of_node?_eq (hsame q hq), hd.children]

/-- A node without a parent is destroyed. -/
theorem Beside.destroy (h : t.Sound) (hguard : Guarded P t) (hc : ¬ P c)
    (hfree : t.parent? c = none) (hdestroy : t.destroy c = .ok t') : Beside P t t' := by
  have hlive : t.Live c := by
    cases hn : t.node? c with
    | none =>
      rw [HostTree.destroy, detach_dead hn] at hdestroy
      split at hdestroy <;> cases hdestroy
    | some n => exact ⟨n, hn⟩
  have hroot : c ≠ root := by
    intro hroot
    rw [HostTree.destroy, if_pos hroot] at hdestroy
    cases hdestroy
  obtain ⟨t₁, hdestroy₁, hremoved⟩ := destroy_removed h hlive hroot
  rw [hdestroy₁] at hdestroy
  rw [← Except.ok.inj hdestroy]
  refine ⟨hremoved.sound, fun y hy => ?_⟩
  have hout : ¬ t.Below c y := fun hbelow => hc (hguard.of_below h.tree.linked hbelow hy)
  refine node?_eq_of_content_eq (hremoved.content y hout) (hremoved.parent y hout) ?_
  rw [hremoved.children y hout]
  exact filter_loose (h.tree.linked.loose hfree) y

/-! ## Other nodes in the place of one -/

/-- Other nodes in the place of one, and every other node in its own place. -/
def swap (old : NodeId) (new : List NodeId) (x : NodeId) : List NodeId := if x = old then new else [x]

theorem swap_self (old : NodeId) (new : List NodeId) : swap old new old = new := if_pos rfl

theorem swap_of_ne {new : List NodeId} (h : x ≠ old) : swap old new x = [x] := if_neg h

theorem flatMap_swap_of_not_mem {new ids : List NodeId} (h : old ∉ ids) :
    ids.flatMap (swap old new) = ids := by
  have hself : ∀ x ∈ ids, swap old new x = [x] := fun x hx => swap_of_ne fun heq => h (heq ▸ hx)
  rw [List.flatMap_congr hself]
  exact List.flatMap_singleton' ids

theorem flatMap_swap {new front back : List NodeId} (h : (front ++ old :: back).Nodup) :
    (front ++ old :: back).flatMap (swap old new) = front ++ (new ++ back) := by
  obtain ⟨hfront, hback⟩ : old ∉ front ∧ old ∉ back := by
    rw [List.nodup_append, List.nodup_cons] at h
    exact ⟨fun hmem => h.2.2 old hmem old List.mem_cons_self rfl, h.2.1.1⟩
  rw [List.flatMap_append, List.flatMap_cons, swap_self, flatMap_swap_of_not_mem hfront,
    flatMap_swap_of_not_mem hback]

theorem filter_eq_flatMap_swap (ids : List NodeId) :
    ids.filter (· != c) = ids.flatMap (swap c []) := by
  induction ids with
  | nil => rfl
  | cons x ids ih =>
    rw [List.flatMap_cons, List.filter_cons, ih]
    by_cases hx : x = c
    · rw [hx, swap_self]
      simp
    · rw [swap_of_ne hx, if_pos (bne_iff_ne.2 hx)]
      rfl

/-- A node is listed by one parent only, so other nodes can be told in its place everywhere. -/
theorem Linked.flatMap_swap_of_ne (hl : t.Linked) (hparent : t.parent? old = some p)
    {new : List NodeId} {q : NodeId} (hne : q ≠ p) :
    (t.children q).flatMap (swap old new) = t.children q :=
  flatMap_swap_of_not_mem fun hmem => hne (Option.some.inj ((hl.child hmem).symm.trans hparent))

/-- What a change of place does: some nodes are in the place of one, and nothing else. -/
structure Swapped (t t' : HostTree α) (old : NodeId) (new : List NodeId) : Prop where
  sound : t'.Sound
  content : ∀ x, t'.content x = t.content x
  children : ∀ q, t'.children q = (t.children q).flatMap (swap old new)

theorem replace_swaps (h : t.Sound) (hold : t.parent? old = some p) (hnew : t.Live new)
    (hfree : t.parent? new = none) (hroot : new ≠ root) (habove : ¬ t.Below new p) :
    ∃ t', t.replace old new = (.ok (), t') ∧ t.Swapped t' old [new] ∧
      ∀ x, t'.parent? x = if x = old then none else if x = new then some p else t.parent? x := by
  obtain ⟨front, back, hchildren⟩ := List.append_of_mem (h.tree.listed hold)
  obtain ⟨t', hreplace, hr⟩ := replace_spec h.tree.linked hchildren hnew hfree hroot
  have hsound := h.exchange hchildren hnew hfree hroot habove
  rw [hreplace] at hsound
  refine ⟨t', hreplace, ⟨hsound, hr.content, fun q => ?_⟩, hr.parent⟩
  rw [hr.children]
  split
  · next heq =>
    rw [heq, hchildren, flatMap_swap (hchildren ▸ h.tree.linked.nodup p)]
    rfl
  · next hne => exact (h.tree.linked.flatMap_swap_of_ne hold hne).symm

theorem insertAfter_swaps (h : t.Sound) (hanchor : t.parent? anchor = some p) (hc : t.Live c)
    (hfree : t.parent? c = none) (hroot : c ≠ root) (habove : ¬ t.Below c p) :
    ∃ t', t.insertAfter anchor c = (.ok (), t') ∧ t.Swapped t' anchor [anchor, c] ∧
      ∀ x, t'.parent? x = if x = c then some p else t.parent? x := by
  obtain ⟨front, back, hchildren⟩ := List.append_of_mem (h.tree.listed hanchor)
  obtain ⟨t', hinsert, hi⟩ := insertAfter_spec h.tree.linked hchildren hc hfree hroot
  have hsound : (t.insertAfter anchor c).2.Sound := by
    refine h.insertAfter fun _ q hq => ⟨hroot, ?_⟩
    rw [hanchor, Option.some.injEq] at hq
    exact hq ▸ habove
  rw [hinsert] at hsound
  refine ⟨t', hinsert, ⟨hsound, hi.content, fun q => ?_⟩, hi.parent⟩
  rw [hi.children]
  split
  · next heq =>
    rw [heq, hchildren, flatMap_swap (hchildren ▸ h.tree.linked.nodup p)]
    rfl
  · next hne => exact (h.tree.linked.flatMap_swap_of_ne hanchor hne).symm

/-! ## New texts -/

/-- A node keeps its kind and its listeners. It keeps its parent too, unless it is taken out. -/
structure Keeps (t t' : HostTree α) (y : NodeId) : Prop where
  live : t'.Live y
  kind : (t'.figure y).kind = (t.figure y).kind
  listeners : t'.listenersOf y = t.listenersOf y
  parent : t'.parent? y = none ∨ t'.parent? y = t.parent? y

theorem Keeps.of_content (hy : t.Live y) (hcontent : t'.content y = t.content y)
    (hparent : t'.parent? y = none ∨ t'.parent? y = t.parent? y) : Keeps t t' y :=
  ⟨hy.of_content hcontent, congrArg Figure.kind (figure_eq_of_content_eq hcontent),
    listenersOf_eq_of_content_eq hcontent, hparent⟩

/-- What is left after a release has the places it had. -/
theorem Pruned.below (h : t.Pruned t' c) (hy : ¬ t.Below c y) (hbelow : t.Below x y) :
    t'.Below x y := by
  induction hbelow with
  | refl => exact Below.refl t' x
  | @tail p d _ hd ih =>
    have hp : ¬ t.Below c p := fun hp => hy (hp.tail hd)
    exact (ih hp).tail ((children_eq_of_node?_eq (h.kept p hp)).symm ▸ hd)

namespace Shedding

variable {rest : List NodeId}

theorem loose (h : t.Shedding id rest) (hc : c ∈ rest) : t.Loose c := by
  intro q hq
  have heq : q = id := Option.some.inj ((h.linked.child hq).symm.trans (h.shed c hc).1)
  rw [heq, h.empty] at hq
  cases hq

theorem ne_root (h : t.Shedding id rest) (hc : c ∈ rest) : c ≠ root := by
  rintro rfl
  have hparent := (h.shed root hc).1
  rw [h.linked.top] at hparent
  cases hparent

/-- A former child that is a text goes with all that is below it. -/
theorem pruned (h : t.Shedding id rest) (hc : c ∈ rest) {n : Node α} (hn : t.node? c = some n)
    (htext : n.kind = .text) : t.Pruned (t.dropChild c) c := by
  rw [HostTree.dropChild, hn]
  dsimp only
  rw [if_pos htext]
  exact release_pruned h.linked h.acyclic h.complete ⟨n, hn⟩ (h.loose hc) (h.ne_root hc)

/-- A node that is not below a former child that is dropped keeps what is above it. -/
theorem below_dropChild (h : t.Shedding id rest) (hc : c ∈ rest) (hlive : (t.dropChild c).Live y)
    (hbelow : t.Below x y) : (t.dropChild c).Below x y := by
  cases hn : t.node? c with
  | none =>
    rw [HostTree.dropChild, hn]
    exact hbelow
  | some n =>
    by_cases htext : n.kind = .text
    · have hpruned := h.pruned hc hn htext
      refine hpruned.below (fun hy => ?_) hbelow
      obtain ⟨m, hm⟩ := hlive
      rw [hpruned.gone y hy] at hm
      cases hm
    · rw [HostTree.dropChild, hn]
      dsimp only
      rw [if_neg htext]
      exact Below.mono (fun q z hz => (children_reparent t c none q).symm ▸ hz) hbelow

/-- No node comes back while the former children are dropped. -/
theorem live_of_dropAll :
    ∀ {t : HostTree α}, t.Shedding id rest → (rest.foldl HostTree.dropChild t).Live y → t.Live y := by
  induction rest with
  | nil => exact fun _ hy => hy
  | cons c rest ih =>
    intro t h hy
    have hc : c ∈ c :: rest := List.mem_cons_self
    have hlive := ih h.dropChild hy
    exact hlive.of_content ((dropChild_spec h.linked (h.loose hc) (h.ne_root hc)).rest y hlive).symm

/-- The nodes below former children that are texts go. -/
theorem dropAll_gone :
    ∀ {t : HostTree α}, t.Shedding id rest → ¬ t.ClearOf rest y →
      ¬ (rest.foldl HostTree.dropChild t).Live y := by
  induction rest with
  | nil => exact fun _ hclear => absurd (fun c hc => absurd hc List.not_mem_nil) hclear
  | cons c rest ih =>
    intro t h hclear hy
    have hc : c ∈ c :: rest := List.mem_cons_self
    have hlive := h.dropChild.live_of_dropAll hy
    refine ih h.dropChild (fun hclear' => hclear ?_) hy
    intro d hd n hn htext hbelow
    rcases List.mem_cons.1 hd with rfl | hd
    · obtain ⟨m, hm⟩ := hlive
      rw [(h.pruned hc hn htext).gone y hbelow] at hm
      cases hm
    · have hbelow' := h.below_dropChild hc hlive hbelow
      -- What lies above a node that is left is left.
      obtain ⟨m, hm⟩ : (t.dropChild c).Live d := by
        rcases Relation.ReflTransGen.cases_head hbelow' with rfl | ⟨z, hz, -⟩
        · exact hlive
        · exact live_of_mem_children hz
      have hsame := (dropChild_spec h.linked (h.loose hc) (h.ne_root hc)).rest d ⟨m, hm⟩
      have hkind := congrArg Figure.kind (figure_eq_of_content_eq hsame)
      rw [figure_of_node? hm, figure_of_node? hn] at hkind
      exact hclear' d hd m hm (hkind.trans htext) hbelow'

end Shedding

/-- What is left of an element when its children are dropped. -/
structure Stripped (t t' : HostTree α) (id : NodeId) : Prop where
  sound : t'.Sound
  live : t'.Live id
  empty : t'.children id = []
  same : ∀ y, t.ClearOf (t.children id) y → t'.content y = t.content y ∧
    (t'.parent? y = none ∨ t'.parent? y = t.parent? y) ∧ (y ≠ id → t'.children y = t.children y)
  gone : ∀ y, ¬ t.ClearOf (t.children id) y → ¬ t'.Live y

theorem Sound.strip (h : t.Sound) (hid : t.Live id) :
    t.Stripped ((t.children id).foldl dropChild (t.relist id fun _ => [])) id := by
  let t₁ := t.relist id fun _ => []
  have hshed : t₁.Shedding id (t.children id) := h.shedding hid
  have hcontent : ∀ y, t₁.content y = t.content y := content_relist t id fun _ => []
  have hchildren : ∀ q, t₁.children q = if q = id then [] else t.children q :=
    children_relist hid fun _ => []
  have hkind : ∀ {c n m}, t.node? c = some n → t₁.node? c = some m → m.kind = n.kind := by
    intro c n m hn hm
    have hkind := congrArg Figure.kind (figure_eq_of_content_eq (hcontent c))
    rwa [figure_of_node? hm, figure_of_node? hn] at hkind
  have hfewer : ∀ q, t₁.children q ⊆ t.children q := by
    intro q x hx
    rw [hchildren] at hx
    split at hx
    · cases hx
    · exact hx
  -- Below a former child nothing has changed yet.
  have hbelow : ∀ c ∈ t.children id, ∀ y, t.Below c y → t₁.Below c y := by
    intro c hc y hy
    induction hy with
    | refl => exact Below.refl t₁ c
    | @tail p d hp hd ih =>
      refine ih.tail ?_
      rw [hchildren, if_neg]
      · exact hd
      · rintro rfl
        exact h.tree.acyclic.not_below hc hp
  have hdrop := hshed.dropAll
  refine ⟨hdrop.sound, hdrop.live, hdrop.empty, fun y hclear => ?_, fun y hclear hy => ?_⟩
  · have hclear₁ : t₁.ClearOf (t.children id) y := by
      intro c hc m hm htext hcy
      obtain ⟨n, hn⟩ : t.Live c := Live.of_content ⟨m, hm⟩ (hcontent c).symm
      exact hclear c hc n hn ((hkind hn hm).symm.trans htext) (Below.mono hfewer hcy)
    obtain ⟨hcontent', hchildren', hparent'⟩ :=
      dropAll_keeps hshed.linked (fun c hc => ⟨hshed.loose hc, hshed.ne_root hc⟩) hclear₁
    refine ⟨hcontent'.trans (hcontent y), ?_, fun hne => ?_⟩
    · rw [← parent?_relist t id (fun _ => []) y]
      exact hparent'
    · exact hchildren'.trans ((hchildren y).trans (if_neg hne))
  · refine hshed.dropAll_gone (fun hclear₁ => hclear ?_) hy
    intro c hc n hn htext hcy
    obtain ⟨m, hm⟩ : t₁.Live c := Live.of_content ⟨n, hn⟩ (hcontent c)
    exact hclear₁ c hc m hm ((hkind hn hm).trans htext) (hbelow c hc y hcy)

/-- An element whose children are dropped and which may get a text. -/
theorem refill_keeps (h : t.Sound) {n : Node α} (hn : t.node? id = some n) (hy : t.Live y)
    (hclear : t.ClearOf (t.children id) y) (text : String) :
    let dropped := (t.children id).foldl dropChild (t.relist id fun _ => [])
    let t' := if text = "" then dropped else (dropped.appendText id text).2
    Keeps t t' y ∧ (y ≠ id → t'.children y = t.children y) := by
  intro dropped t'
  have hstrip : t.Stripped dropped id := h.strip ⟨n, hn⟩
  obtain ⟨hcontent, hparent, hchildren⟩ := hstrip.same y hclear
  by_cases htext : text = ""
  · have heq : t' = dropped := if_pos htext
    rw [heq]
    exact ⟨Keeps.of_content hy hcontent hparent, hchildren⟩
  · have heq : t' = (dropped.appendText id text).2 := if_neg htext
    obtain ⟨leaf, ha⟩ := appendText_spec hstrip.sound.tree.linked hstrip.live hstrip.empty text
    have hne : y ≠ leaf := by
      rintro rfl
      obtain ⟨m, hm⟩ := hy.of_content hcontent
      have hfresh := ha.fresh
      rw [hm] at hfresh
      cases hfresh
    rw [heq]
    refine ⟨Keeps.of_content hy ((ha.content y hne).trans hcontent) ?_, fun hyid => ?_⟩
    · rw [ha.parent y hne]
      exact hparent
    · rw [ha.children, if_neg hyid, hchildren hyid]

/-- A change of the data of a node. -/
theorem Keeps.modify (hy : t.Live y) {change : Node α → Node α}
    (hkind : ∀ n, (change n).kind = n.kind) (hlisteners : ∀ n, (change n).listeners = n.listeners)
    (hparent : ∀ n, (change n).parent = n.parent) : Keeps t (t.modify id change) y := by
  obtain ⟨n, hn⟩ := hy
  by_cases hne : y = id
  · have hself : (t.modify id change).node? y = some (change n) := by
      rw [hne, node?_modify_self, ← hne, hn]
      rfl
    refine ⟨⟨_, hself⟩, ?_, ?_, .inr ?_⟩
    · rw [figure_of_node? hself, figure_of_node? hn]
      exact hkind n
    · rw [listenersOf, hself, listenersOf, hn]
      exact hlisteners n
    · rw [parent?_of_node? hself, parent?_of_node? hn]
      exact hparent n
  · have hsame := node?_modify_of_ne hne change (t := t)
    exact Keeps.of_content ⟨n, hn⟩ (content_eq_of_node?_eq hsame)
      (.inr (parent?_eq_of_node?_eq hsame))

theorem Keeps.update (hy : t.Live y) {change : Node α → Node α}
    (hupdate : t.update id change = .ok t') (hkind : ∀ n, (change n).kind = n.kind)
    (hlisteners : ∀ n, (change n).listeners = n.listeners)
    (hparent : ∀ n, (change n).parent = n.parent) : Keeps t t' y :=
  eq_modify_of_update hupdate ▸ Keeps.modify hy hkind hlisteners hparent

/-- What a new text leaves of a node that is below no text of the element. -/
theorem setText_keeps (h : t.Sound) {text : String} (hset : t.setText id text = .ok t')
    (hy : t.Live y) (hclear : t.ClearOf (t.children id) y) :
    Keeps t t' y ∧ (y ≠ id → t'.children y = t.children y) := by
  obtain ⟨n, hn, ⟨-, rfl⟩ | rfl⟩ := setText_cases hset
  · exact refill_keeps h hn hy hclear text
  · refine ⟨Keeps.modify hy (fun _ => rfl) (fun _ => rfl) fun _ => rfl, fun hne => ?_⟩
    exact children_eq_of_node?_eq (node?_modify_of_ne hne _)

end ReactiveTemplate.HostTree
