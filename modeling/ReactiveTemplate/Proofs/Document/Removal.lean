import ReactiveTemplate.Engine.Page
import ReactiveTemplate.Proofs.Document.Moves

/-!
# Taking content away

What releasing a subtree leaves of a document, and what replacing the content of an element
by a text does. A release is bounded, so it is only shown that it takes nothing else away:
what it would leave over has no parent and concerns nobody.

* `HostTree.Released`, `HostTree.releaseFrom_spec`: releasing subtrees.
* `HostTree.destroy_spec`, `HostTree.destroyAll_spec`: taking copies out of their parent.
* `HostTree.setText_spec`: the content of an element becomes a text.
-/

namespace ReactiveTemplate.HostTree

variable {α : Type} {t t' : HostTree α} {id p c y : NodeId}

/-! ## Releasing -/

/-- What releasing some subtrees does: no node outside of them is touched, and what is left is
    as it was. -/
structure Released (t t' : HostTree α) (tops : List NodeId) : Prop where
  linked : t'.Linked
  kept : ∀ y, (∀ s ∈ tops, ¬ t.Below s y) → t'.node? y = t.node? y
  rest : ∀ y, t'.Live y → t'.node? y = t.node? y

/-- Nodes that a release may begin with. -/
def Releasable (t : HostTree α) (tops : List NodeId) : Prop := ∀ s ∈ tops, t.Loose s ∧ s ≠ root

theorem Linked.ne_root (hl : t.Linked) (hc : c ∈ t.children p) : c ≠ root := by
  rintro rfl
  have hparent := hl.child hc
  rw [hl.top] at hparent
  cases hparent

/-- When a node is gone, its children are free to go. -/
theorem Releasable.vacate (hl : t.Linked) {n : Node α} (hn : t.node? id = some n)
    {stack : List NodeId} (h : t.Releasable (id :: stack)) :
    (t.vacate id).Releasable (n.children.reverse ++ stack) := by
  intro s hs
  have hsub : ∀ q, s ∈ (t.vacate id).children q → q ≠ id ∧ s ∈ t.children q := by
    intro q hq
    rw [children_vacate ⟨n, hn⟩] at hq
    split at hq
    · cases hq
    · next hne => exact ⟨hne, hq⟩
  rcases List.mem_append.1 hs with hs | hs
  · have hchild : s ∈ t.children id := by
      rw [children_of_node? hn]
      exact List.mem_reverse.1 hs
    refine ⟨fun q hq => ?_, hl.ne_root hchild⟩
    obtain ⟨hne, hq⟩ := hsub q hq
    exact hne (Option.some.inj ((hl.child hq).symm.trans (hl.child hchild)))
  · obtain ⟨hloose, hroot⟩ := h s (List.mem_cons_of_mem _ hs)
    exact ⟨fun q hq => hloose q (hsub q hq).2, hroot⟩

theorem releaseFrom_spec (fuel : Nat) :
    ∀ {t : HostTree α} {stack : List NodeId}, t.Linked → t.Releasable stack →
      t.Released (releaseFrom fuel stack t) stack := by
  induction fuel with
  | zero => exact fun hl _ => ⟨hl, fun _ _ => rfl, fun _ _ => rfl⟩
  | succ fuel ih =>
    intro t stack hl hstack
    cases stack with
    | nil => exact ⟨hl, fun _ _ => rfl, fun _ _ => rfl⟩
    | cons id stack =>
      obtain ⟨hloose, hroot⟩ := hstack id (by simp)
      rw [releaseFrom]
      cases hn : t.node? id with
      | none =>
        have hrest := ih hl fun s hs => hstack s (List.mem_cons_of_mem _ hs)
        exact ⟨hrest.linked, fun y hy => hrest.kept y fun s hs => hy s (List.mem_cons_of_mem _ hs),
          hrest.rest⟩
      | some n =>
        have hid : t.Live id := ⟨n, hn⟩
        have hrest := ih (hl.vacate hid hloose hroot) (hstack.vacate hl hn)
        have hmono : ∀ q, (t.vacate id).children q ⊆ t.children q := by
          intro q c hc
          rw [children_vacate hid] at hc
          split at hc
          · cases hc
          · exact hc
        refine ⟨hrest.linked, fun y hy => ?_, fun y hy => ?_⟩
        · have hne : y ≠ id := by
            rintro rfl
            exact hy y (by simp) (Below.refl t y)
          rw [hrest.kept y fun s hs hbelow => ?_, node?_vacate hid, if_neg hne]
          have hbelow := Below.mono hmono hbelow
          rcases List.mem_append.1 hs with hs | hs
          · refine hy id (by simp) (Relation.ReflTransGen.head ?_ hbelow)
            rw [children_of_node? hn]
            exact List.mem_reverse.1 hs
          · exact hy s (List.mem_cons_of_mem _ hs) hbelow
        · have heq := hrest.rest y hy
          obtain ⟨m, hm⟩ := hy
          rw [hm, node?_vacate hid] at heq
          split at heq
          · cases heq
          · exact hm.trans heq

theorem release_spec (hl : t.Linked) (hloose : t.Loose id) (hroot : id ≠ root) :
    t.Released (t.release id) [id] := by
  refine releaseFrom_spec _ hl fun s hs => ?_
  rw [List.mem_singleton.1 hs]
  exact ⟨hloose, hroot⟩

/-! ## Destroying -/

/-- What destroying children of a node does. -/
structure Destroyed (t t' : HostTree α) (p : NodeId) (gone : List NodeId) : Prop where
  linked : t'.Linked
  kept : ∀ y, y ≠ p → (∀ c ∈ gone, ¬ t.Below c y) → t'.node? y = t.node? y
  parent : t'.parent? p = t.parent? p
  content : t'.content p = t.content p
  children : t'.children p = (t.children p).filter (· ∉ gone)
  fewer : ∀ q, t'.children q ⊆ t.children q
  rest : ∀ y, t'.Live y → t'.content y = t.content y

theorem destroy_spec (hl : t.Linked) (hc : c ∈ t.children p) (hp : ¬ t.Below c p) :
    ∃ t', t.destroy c = .ok t' ∧ t.Destroyed t' p [c] := by
  have hparent := hl.child hc
  have hlive := live_of_mem_children hc
  have hroot := hl.ne_root hc
  have hid := live_of_parent? hparent
  have hu := hl.unhooked hparent hlive
  have hmono : ∀ q, (t.unhooked p c).children q ⊆ t.children q := by
    intro q x hx
    rw [children_unhooked hlive] at hx
    split at hx
    · next heq => exact heq ▸ (List.mem_filter.1 hx).1
    · exact hx
  have hloose : (t.unhooked p c).Loose c := hu.loose (by rw [parent?_unhooked hid, if_pos rfl])
  have hr := release_spec hu hloose hroot
  have hsame : ∀ y, ¬ t.Below c y → ((t.unhooked p c).release c).node? y =
      (t.unhooked p c).node? y := by
    intro y hy
    refine hr.kept y fun s hs hbelow => hy ?_
    rw [List.mem_singleton.1 hs] at hbelow
    exact Below.mono hmono hbelow
  have hpc : p ≠ c := by
    rintro rfl
    exact hp (Below.refl t p)
  refine ⟨_, ?_, hr.linked, fun y hy hbelow => ?_, ?_, ?_, ?_, fun q x hx => ?_, fun y hy => ?_⟩
  · rw [destroy, if_neg hroot, detach_of_parent? hparent hlive]
    rfl
  · have hyc : y ≠ c := by
      rintro rfl
      exact hbelow y (by simp) (Below.refl t y)
    rw [hsame y (hbelow c (by simp))]
    refine node?_eq_of_content_eq (content_unhooked t p c y) ?_ ?_
    · rw [parent?_unhooked hid, if_neg hyc]
    · rw [children_unhooked hlive, if_neg hy]
  · rw [parent?_eq_of_node?_eq (hsame p hp), parent?_unhooked hid, if_neg hpc]
  · rw [content_eq_of_node?_eq (hsame p hp), content_unhooked]
  · rw [children_eq_of_node?_eq (hsame p hp), children_unhooked hlive, if_pos rfl]
    refine List.filter_congr fun x _ => ?_
    by_cases hx : x = c <;> simp [hx]
  · have heq := hr.rest q (live_of_mem_children hx)
    rw [children_eq_of_node?_eq heq] at hx
    exact hmono q hx
  · rw [content_eq_of_node?_eq (hr.rest y hy), content_unhooked]

/-- Destroying several children of a node, none of which is above it. -/
theorem destroyAll_spec {gone : List NodeId} :
    ∀ {t : HostTree α}, t.Linked → gone.Nodup →
      (∀ c ∈ gone, c ∈ t.children p ∧ ¬ t.Below c p) →
        ∃ t', despiteFailures destroy gone t = (none, t') ∧ t.Destroyed t' p gone := by
  induction gone with
  | nil =>
    intro t hl _ _
    exact ⟨t, rfl, hl, fun _ _ _ => rfl, rfl, rfl, by simp, fun _ _ h => h, fun _ _ => rfl⟩
  | cons c gone ih =>
    intro t hl hnodup hgone
    rw [List.nodup_cons] at hnodup
    obtain ⟨t₁, hdestroy, h₁⟩ := destroy_spec hl (hgone c (by simp)).1 (hgone c (by simp)).2
    obtain ⟨t', hall, h'⟩ := ih h₁.linked hnodup.2 fun d hd => by
      obtain ⟨hchild, habove⟩ := hgone d (List.mem_cons_of_mem _ hd)
      have hdc : d ≠ c := by
        rintro rfl
        exact hnodup.1 hd
      refine ⟨?_, fun hbelow => habove (Below.mono h₁.fewer hbelow)⟩
      rw [h₁.children, List.mem_filter]
      exact ⟨hchild, by simpa using hdc⟩
    refine ⟨t', ?_, h'.linked, fun y hy hbelow => ?_, ?_, ?_, ?_, fun q x hx => ?_, fun y hy => ?_⟩
    · simp only [despiteFailures, hdestroy, hall]
    · rw [h'.kept y hy fun d hd hb => ?_, h₁.kept y hy fun d hd => ?_]
      · rw [List.mem_singleton.1 hd]
        exact hbelow c (by simp)
      · exact hbelow d (List.mem_cons_of_mem _ hd) (Below.mono h₁.fewer hb)
    · rw [h'.parent, h₁.parent]
    · rw [h'.content, h₁.content]
    · rw [h'.children, h₁.children, List.filter_filter]
      refine List.filter_congr fun x _ => ?_
      by_cases hx : x = c <;> by_cases hx' : x ∈ gone <;> simp [hx, hx']
    · exact h₁.fewer q (h'.fewer q hx)
    · have heq := h'.rest y hy
      rw [heq, h₁.rest y (hy.of_content heq.symm)]

/-! ## Texts -/

/-- The text that an element has as its content. -/
def textLeaf (parent : NodeId) (text : String) : Node α :=
  { Node.blank .text with data := text, parent := some parent }

/-- The content of an element is a text; it has no children where the text is empty. -/
def ShowsText (t : HostTree α) (id : NodeId) (text : String) : Prop :=
  (text = "" ∧ t.children id = []) ∨
    text ≠ "" ∧ ∃ leaf, t.children id = [leaf] ∧ t.node? leaf = some (textLeaf id text)

/-- What dropping nodes that nobody lists does. -/
structure Dropped (t t' : HostTree α) (gone : List NodeId) : Prop where
  linked : t'.Linked
  kept : ∀ y, (∀ c ∈ gone, ¬ t.Below c y) → t'.node? y = t.node? y
  fewer : ∀ q, t'.children q ⊆ t.children q
  rest : ∀ y, t'.Live y → t'.content y = t.content y

theorem Released.dropped {tops : List NodeId} (h : t.Released t' tops) : t.Dropped t' tops := by
  refine ⟨h.linked, h.kept, fun q x hx => ?_, fun y hy => content_eq_of_node?_eq (h.rest y hy)⟩
  rw [children_eq_of_node?_eq (h.rest q (live_of_mem_children hx))] at hx
  exact hx

theorem Linked.reparent_none (hl : t.Linked) (hc : t.Live c) (hloose : t.Loose c) :
    (t.reparent c none).Linked := by
  refine ⟨live_reparent hl.rooted c none, ?_, hl.free.modify c _, fun {q x} h => ?_, fun q => ?_⟩
  · rw [parent?_reparent hc, hl.top]
    split <;> rfl
  · rw [children_reparent] at h
    have hne : x ≠ c := by
      rintro rfl
      exact hloose q h
    rw [parent?_reparent hc, if_neg hne]
    exact hl.child h
  · rw [children_reparent]
    exact hl.nodup q

theorem dropChild_spec (hl : t.Linked) (hloose : t.Loose c) (hroot : c ≠ root) :
    t.Dropped (t.dropChild c) [c] := by
  rw [dropChild]
  cases hn : t.node? c with
  | none => exact ⟨hl, fun _ _ => rfl, fun _ _ h => h, fun _ _ => rfl⟩
  | some n =>
    dsimp only
    split
    · exact (release_spec hl hloose hroot).dropped
    · show t.Dropped (t.reparent c none) [c]
      have hc : t.Live c := ⟨n, hn⟩
      refine ⟨hl.reparent_none hc hloose, fun y hy => ?_, fun q x hx => ?_, fun y _ => ?_⟩
      · have hne : y ≠ c := by
          rintro rfl
          exact hy y (by simp) (Below.refl t y)
        exact node?_modify_of_ne hne _
      · rwa [children_reparent] at hx
      · exact content_reparent t c none y

theorem dropAll_spec {gone : List NodeId} :
    ∀ {t : HostTree α}, t.Linked → (∀ c ∈ gone, t.Loose c ∧ c ≠ root) →
      t.Dropped (gone.foldl dropChild t) gone := by
  induction gone with
  | nil => exact fun hl _ => ⟨hl, fun _ _ => rfl, fun _ _ h => h, fun _ _ => rfl⟩
  | cons c gone ih =>
    intro t hl hgone
    obtain ⟨hloose, hroot⟩ := hgone c (by simp)
    have h₁ := dropChild_spec hl hloose hroot
    have h' := ih h₁.linked fun d hd => by
      obtain ⟨hloose', hroot'⟩ := hgone d (List.mem_cons_of_mem _ hd)
      exact ⟨fun q hq => hloose' q (h₁.fewer q hq), hroot'⟩
    refine ⟨h'.linked, fun y hy => ?_, fun q x hx => h₁.fewer q (h'.fewer q hx), fun y hy => ?_⟩
    · rw [List.foldl_cons, h'.kept y fun d hd hb => ?_, h₁.kept y fun d hd => ?_]
      · rw [List.mem_singleton.1 hd]
        exact hy c (by simp)
      · exact hy d (List.mem_cons_of_mem _ hd) (Below.mono h₁.fewer hb)
    · have heq := h'.rest y hy
      rw [List.foldl_cons, heq, h₁.rest y (hy.of_content heq.symm)]

/-- A node that is below no text among some others. -/
def ClearOf (t : HostTree α) (gone : List NodeId) (y : NodeId) : Prop :=
  ∀ c ∈ gone, ∀ n, t.node? c = some n → n.kind = .text → ¬ t.Below c y

theorem dropChild_keeps (hl : t.Linked) (hloose : t.Loose c) (hroot : c ≠ root)
    (hclear : t.ClearOf [c] y) :
    (t.dropChild c).content y = t.content y ∧ (t.dropChild c).children y = t.children y ∧
      ((t.dropChild c).parent? y = none ∨ (t.dropChild c).parent? y = t.parent? y) := by
  rw [dropChild]
  cases hn : t.node? c with
  | none => exact ⟨rfl, rfl, .inr rfl⟩
  | some n =>
    dsimp only
    split
    · next htext =>
      have hsame := (release_spec hl hloose hroot).kept y fun s hs => by
        rw [List.mem_singleton.1 hs]
        exact hclear c (List.mem_singleton_self c) n hn htext
      exact ⟨content_eq_of_node?_eq hsame, children_eq_of_node?_eq hsame,
        .inr (parent?_eq_of_node?_eq hsame)⟩
    · refine ⟨content_reparent t c none y, children_reparent t c none y, ?_⟩
      have hparent : (t.reparent c none).parent? y = _ := parent?_reparent ⟨n, hn⟩ none y
      show (t.reparent c none).parent? y = none ∨ (t.reparent c none).parent? y = _
      rw [hparent]
      split
      · exact .inl rfl
      · exact .inr rfl

theorem dropAll_keeps {gone : List NodeId} :
    ∀ {t : HostTree α}, t.Linked → (∀ c ∈ gone, t.Loose c ∧ c ≠ root) → t.ClearOf gone y →
      (gone.foldl dropChild t).content y = t.content y ∧
        (gone.foldl dropChild t).children y = t.children y ∧
        ((gone.foldl dropChild t).parent? y = none ∨
          (gone.foldl dropChild t).parent? y = t.parent? y) := by
  induction gone with
  | nil => exact fun _ _ _ => ⟨rfl, rfl, .inr rfl⟩
  | cons c gone ih =>
    intro t hl hgone hclear
    obtain ⟨hloose, hroot⟩ := hgone c (by simp)
    have hd := dropChild_spec hl hloose hroot
    obtain ⟨hcontent, hchildren, hparent⟩ := dropChild_keeps hl hloose hroot fun d hd => by
      rw [List.mem_singleton.1 hd]
      exact hclear c (by simp)
    obtain ⟨hcontent', hchildren', hparent'⟩ := @ih (t.dropChild c) hd.linked
      (fun d hmem => by
        obtain ⟨hloose', hroot'⟩ := hgone d (List.mem_cons_of_mem _ hmem)
        exact ⟨fun q hq => hloose' q (hd.fewer q hq), hroot'⟩)
      fun d hmem n hn htext hbelow => by
        -- A text that is left was there before.
        have hsame := hd.rest d ⟨n, hn⟩
        obtain ⟨m, hm⟩ : t.Live d := Live.of_content ⟨n, hn⟩ hsame.symm
        have hkind := congrArg Figure.kind (figure_eq_of_content_eq hsame)
        rw [figure_of_node? hn, figure_of_node? hm] at hkind
        exact hclear d (List.mem_cons_of_mem _ hmem) m hm (hkind.symm.trans htext)
          (Below.mono hd.fewer hbelow)
    rw [List.foldl_cons]
    refine ⟨hcontent'.trans hcontent, hchildren'.trans hchildren, ?_⟩
    rcases hparent' with hnone | hsame
    · exact .inl hnone
    · rw [hsame]
      exact hparent

/-- What replacing the content of an element by a text does. What lay below the element is
    gone or left on its own. -/
structure TextSet (t t' : HostTree α) (id : NodeId) (text : String) : Prop where
  linked : t'.Linked
  kept : ∀ y, t.Live y → y ≠ id → (∀ c ∈ t.children id, ¬ t.Below c y) →
    t'.node? y = t.node? y
  content : t'.content id = t.content id
  parent : t'.parent? id = t.parent? id
  shows : t'.ShowsText id text
  fresh : ∀ leaf ∈ t'.children id, leaf ≠ id ∧ ∀ y, t.Live y → t.ClearOf (t.children id) y → y ≠ leaf
  left : ∀ y, t.Live y → y ≠ id → t.ClearOf (t.children id) y →
    t'.content y = t.content y ∧ t'.children y = t.children y
  rest : ∀ y n, t'.node? y = some n → t'.content y = t.content y ∨ n.listeners = []

/-- What adding a text below an element without children does. -/
structure TextAdded (t t' : HostTree α) (id leaf : NodeId) (text : String) : Prop where
  linked : t'.Linked
  fresh : t.node? leaf = none
  added : t'.node? leaf = some (textLeaf id text)
  content : ∀ y, y ≠ leaf → t'.content y = t.content y
  parent : ∀ y, y ≠ leaf → t'.parent? y = t.parent? y
  children : ∀ q, t'.children q = if q = id then [leaf] else t.children q

theorem appendText_spec (hl : t.Linked) (hid : t.Live id) (hempty : t.children id = [])
    (text : String) : ∃ leaf, t.TextAdded (t.appendText id text).2 id leaf text := by
  let node : Node α := textLeaf id text
  let leaf := (t.allocate node).1
  let t₁ := (t.allocate node).2
  let t' := t₁.relist id fun ids => ids ++ [leaf]
  have hnode : ∀ y, t₁.node? y = if y = leaf then some node else t.node? y :=
    node?_allocate hl.free node
  have hfresh : t.node? leaf = none := node?_allocate_fresh hl.free node
  have hl₁ : t₁.Linked := hl.allocate rfl
  have hne : ∀ y, t.Live y → y ≠ leaf := fun y hy heq => not_live_iff.2 hfresh (heq ▸ hy)
  have hsame : ∀ y, y ≠ leaf → t₁.node? y = t.node? y := by
    intro y hy
    rw [hnode, if_neg hy]
  have hleaf : t₁.node? leaf = some node := by rw [hnode, if_pos rfl]
  have hid₁ : t₁.Live id := hid.of_node? (hsame id (hne id hid))
  have hc : ∀ q, t'.children q = if q = id then [leaf] else t.children q := by
    intro q
    rw [children_relist hid₁]
    split
    · rw [children_eq_of_node?_eq (hsame id (hne id hid)), hempty, List.nil_append]
    · by_cases hq : q = leaf
      · rw [hq, children_of_node? hleaf, children_of_node?_none hfresh]
        rfl
      · exact children_eq_of_node?_eq (hsame q hq)
  have hp : ∀ y, y ≠ leaf → t'.parent? y = t.parent? y := by
    intro y hy
    rw [parent?_relist, parent?_eq_of_node?_eq (hsame y hy)]
  have hleaf' : t'.node? leaf = some node := by
    rw [← hleaf]
    exact node?_modify_of_ne (hne id hid).symm _
  refine ⟨leaf, ?_, hfresh, hleaf', fun y hy => ?_, hp, hc⟩
  · show t'.Linked
    refine ⟨live_relist hl₁.rooted id _, ?_, hl₁.free.modify id _, fun {q x} h => ?_, fun q => ?_⟩
    · rw [hp root (hne root hl.rooted), hl.top]
    · rw [hc] at h
      split at h
      · next heq =>
        rw [List.mem_singleton.1 h, parent?_of_node? hleaf', heq]
        rfl
      · rw [hp x (hne x (hl.live h))]
        exact hl.child h
    · rw [hc]
      split
      · exact List.nodup_singleton leaf
      · exact hl.nodup q
  · show t'.content y = _
    rw [content_relist, content_eq_of_node?_eq (hsame y hy)]

theorem kind_ne_of_isElement {n : Node α} (helement : n.isElement = true) :
    n.kind ≠ .text ∧ n.kind ≠ .placeholder := by
  rw [Node.isElement] at helement
  cases hkind : n.kind with
  | element tag => exact ⟨NodeKind.noConfusion, NodeKind.noConfusion⟩
  | _ =>
    rw [hkind] at helement
    cases helement

/-- What dropping all content of an element does. -/
structure ContentDropped (t t' : HostTree α) (id : NodeId) : Prop where
  linked : t'.Linked
  same : ∀ y, y ≠ id → (∀ c ∈ t.children id, ¬ t.Below c y) → t'.node? y = t.node? y
  content : t'.content id = t.content id
  parent : t'.parent? id = t.parent? id
  children : t'.children id = []
  rest : ∀ y, t'.Live y → t'.content y = t.content y
  left : ∀ y, y ≠ id → t.ClearOf (t.children id) y →
    t'.content y = t.content y ∧ t'.children y = t.children y

theorem contentDropped (hl : t.Linked) (hid : t.Live id)
    (habove : ∀ c ∈ t.children id, ¬ t.Below c id) :
    t.ContentDropped ((t.children id).foldl dropChild (t.relist id fun _ => [])) id := by
  let emptied := t.relist id fun _ => []
  let dropped := (t.children id).foldl dropChild emptied
  have hchildren : ∀ q, emptied.children q = if q = id then [] else t.children q :=
    children_relist hid _
  have hfewer : ∀ q, emptied.children q ⊆ t.children q := by
    intro q x hx
    rw [hchildren] at hx
    split at hx
    · cases hx
    · exact hx
  have he : emptied.Linked := by
    refine ⟨live_relist hl.rooted id _, ?_, hl.free.modify id _, fun {q x} h => ?_, fun q => ?_⟩
    · rw [parent?_relist, hl.top]
    · rw [parent?_relist]
      exact hl.child (hfewer q h)
    · rw [hchildren]
      split
      · exact List.nodup_nil
      · exact hl.nodup q
  have hgone : ∀ c ∈ t.children id, emptied.Loose c ∧ c ≠ root := fun c hc => by
    refine ⟨fun q hq => ?_, hl.ne_root hc⟩
    have hqid : q = id := Option.some.inj ((hl.child (hfewer q hq)).symm.trans (hl.child hc))
    rw [hchildren, if_pos hqid] at hq
    cases hq
  have hd : emptied.Dropped dropped (t.children id) := dropAll_spec he hgone
  have hkept : ∀ y, (∀ c ∈ t.children id, ¬ t.Below c y) → dropped.node? y = emptied.node? y :=
    fun y hy => hd.kept y fun c hc hb => hy c hc (Below.mono hfewer hb)
  have hself := hkept id habove
  constructor
  case linked => exact hd.linked
  case same =>
    intro y hne hy
    exact (hkept y hy).trans (node?_modify_of_ne hne _)
  case content => exact (content_eq_of_node?_eq hself).trans (content_relist t id _ id)
  case parent => exact (parent?_eq_of_node?_eq hself).trans (parent?_relist t id _ id)
  case children => exact (children_eq_of_node?_eq hself).trans ((hchildren id).trans (if_pos rfl))
  case rest => exact fun y hy => (hd.rest y hy).trans (content_relist t id _ y)
  case left =>
    intro y hne hclear
    obtain ⟨hcontent, hsame, -⟩ := dropAll_keeps he hgone fun c hc m hm htext hbelow => by
      have hsame := content_relist t id (fun _ => []) c
      obtain ⟨n, hn⟩ : t.Live c := Live.of_content ⟨m, hm⟩ hsame.symm
      have hkind := congrArg Figure.kind (figure_eq_of_content_eq hsame)
      rw [figure_of_node? hn, figure_of_node? hm] at hkind
      exact hclear c hc n hn (hkind.symm.trans htext) (Below.mono hfewer hbelow)
    rw [hcontent, hsame, content_relist, hchildren, if_neg hne]
    exact ⟨rfl, rfl⟩

/-- The text comes into the element that was emptied. -/
theorem ContentDropped.textSet {dropped : HostTree α} (hd : t.ContentDropped dropped id)
    (hid : t.Live id) {text : String} (htext : text ≠ "") :
    t.TextSet (dropped.appendText id text).2 id text := by
  have hlive : dropped.Live id := hid.of_content hd.content
  obtain ⟨leaf, ha⟩ := appendText_spec hd.linked hlive hd.children text
  have hneleaf : ∀ y, dropped.Live y → y ≠ leaf := fun y hy heq =>
    not_live_iff.2 ha.fresh (heq ▸ hy)
  have hself := hneleaf id hlive
  constructor
  case linked => exact ha.linked
  case kept =>
    intro y hlive hne hb
    have hsame := hd.same y hne hb
    have hy := hneleaf y (hlive.of_node? hsame)
    rw [← hsame]
    refine node?_eq_of_content_eq (ha.content y hy) (ha.parent y hy) ?_
    rw [ha.children, if_neg hne]
  case content => rw [ha.content id hself, hd.content]
  case parent => rw [ha.parent id hself, hd.parent]
  case shows => exact .inr ⟨htext, leaf, by rw [ha.children, if_pos rfl], ha.added⟩
  case fresh =>
    intro x hx
    rw [ha.children, if_pos rfl] at hx
    rw [List.mem_singleton.1 hx]
    refine ⟨hself.symm, fun y hy hclear => ?_⟩
    by_cases hne : y = id
    · exact hne ▸ hself
    · exact hneleaf y (hy.of_content (hd.left y hne hclear).1)
  case left =>
    intro y hy hne hclear
    obtain ⟨hcontent, hchildren⟩ := hd.left y hne hclear
    rw [ha.content y (hneleaf y (hy.of_content hcontent)), ha.children, if_neg hne]
    exact ⟨hcontent, hchildren⟩
  case rest =>
    intro y m hm
    by_cases hy : y = leaf
    · right
      rw [hy, ha.added] at hm
      rw [← Option.some.inj hm]
      rfl
    · left
      have hcy := ha.content y hy
      rw [hcy]
      exact hd.rest y (Live.of_content ⟨m, hm⟩ hcy.symm)

/-- A new text for a node with content: its children are dropped, and a text is added. -/
theorem setText_eq {n : Node α} (hn : t.node? id = some n)
    (hkind : n.kind ≠ .text ∧ n.kind ≠ .placeholder) (text : String) :
    let dropped := (t.children id).foldl dropChild (t.relist id fun _ => [])
    t.setText id text = .ok (if text = "" then dropped else (dropped.appendText id text).2) := by
  simp only [setText, get_of_node? hn, bind, Except.bind, ← children_of_node? hn]
  cases hcase : n.kind with
  | text => exact absurd hcase hkind.1
  | placeholder => exact absurd hcase hkind.2
  | _ => rfl

/-- A new text replaces the children of an element, and the data of another node. -/
theorem setText_cases {text : String} (hset : t.setText id text = .ok t') :
    let dropped := (t.children id).foldl dropChild (t.relist id fun _ => [])
    ∃ n, t.node? id = some n ∧
      ((n.kind ≠ .text ∧ n.kind ≠ .placeholder) ∧
          t' = (if text = "" then dropped else (dropped.appendText id text).2) ∨
        t' = t.modify id fun n => { n with data := text }) := by
  cases hn : t.node? id with
  | none =>
    simp only [setText, get, hn, bind, Except.bind] at hset
    cases hset
  | some n =>
    refine ⟨n, rfl, ?_⟩
    by_cases hkind : n.kind ≠ .text ∧ n.kind ≠ .placeholder
    · rw [setText_eq hn hkind] at hset
      exact .inl ⟨hkind, (Except.ok.inj hset).symm⟩
    · simp only [setText, get_of_node? hn, bind, Except.bind] at hset
      cases hcase : n.kind with
      | text | placeholder =>
        rw [hcase] at hset
        exact .inr (Except.ok.inj hset).symm
      | _ => exact absurd (by simp [hcase]) hkind

theorem setText_spec (hl : t.Linked) {n : Node α} (hn : t.node? id = some n)
    (hkind : n.kind ≠ .text ∧ n.kind ≠ .placeholder) (habove : ∀ c ∈ t.children id, ¬ t.Below c id)
    (text : String) : ∃ t', t.setText id text = .ok t' ∧ t.TextSet t' id text := by
  have hid : t.Live id := ⟨n, hn⟩
  have hd := contentDropped hl hid habove
  have hset := setText_eq hn hkind text
  by_cases htext : text = ""
  · refine ⟨_, by rw [hset, if_pos htext], hd.linked, fun y _ => hd.same y, hd.content, hd.parent,
      .inl ⟨htext, hd.children⟩, ?_, fun y _ => hd.left y, fun y m hy => .inl (hd.rest y ⟨m, hy⟩)⟩
    rw [hd.children]
    exact fun x hx => absurd hx List.not_mem_nil
  · exact ⟨_, by rw [hset, if_neg htext], hd.textSet hid htext⟩

/-- The text of an element whose content is a text. -/
theorem ShowsText.text_eq {text : String} (hshows : t.ShowsText id text) {n : Node α}
    (hn : t.node? id = some n)
    (helement : n.isElement = true) : t.text id = .ok text := by
  have hsize : t.slots.size ≠ 0 := by
    have hlt := index_lt_of_live ⟨n, hn⟩
    omega
  obtain ⟨depth, hdepth⟩ := Nat.exists_eq_succ_of_ne_zero hsize
  rw [HostTree.text, get_of_node? hn]
  show Except.ok (t.textWithin (t.slots.size + 1) n) = _
  rw [Node.isElement] at helement
  cases hkind : n.kind with
  | element tag =>
    rw [textWithin, hkind, hdepth]
    dsimp only
    rw [← children_of_node? hn]
    rcases hshows with ⟨htext, hempty⟩ | ⟨-, leaf, hchildren, hleaf⟩
    · rw [hempty, htext]
      rfl
    · rw [hchildren, List.map_singleton, hleaf]
      show Except.ok (String.join [text]) = _
      simp [String.join]
  | _ =>
    rw [hkind] at helement
    cases helement

end ReactiveTemplate.HostTree
