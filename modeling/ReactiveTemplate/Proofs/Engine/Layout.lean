import ReactiveTemplate.Engine.Binding
import ReactiveTemplate.Proofs.Document.Forests
import ReactiveTemplate.Proofs.Document.Removal

/-!
# Bindings in their document

How the bindings of an engine lie in its document, told by the document before they were
made. A node of that document is standing until an element above it shows a text. The slots
of standing nodes hold what the bindings keep there: an element or its placeholder, or a
placeholder and the copies behind it.

* `Declared`: each binding is asked for by an attribute of the first document.
* `Kept`: the invariant that ties the document to the bindings.
* `Kept.standing_of_below`: above a standing node there are standing nodes only.
* `Kept.CutOff`: subtrees that can go without touching what bindings keep.
-/

namespace ReactiveTemplate

/-! ## What bindings keep -/

namespace Binding

/-- The nodes that a binding has made and still uses. -/
def own (b : Binding) : List NodeId :=
  match b.directive with
  | .presence _ placeholder _ => [placeholder]
  | .repetition _ template placeholder rendered => template :: placeholder :: rendered
  | _ => []

/-- What a binding keeps in the slot of its node, if it takes care of the slot. -/
def occupants? (b : Binding) : Option (List NodeId) :=
  match b.directive with
  | .presence _ placeholder present => some [if present then b.node else placeholder]
  | .repetition _ _ placeholder rendered => some (placeholder :: rendered)
  | _ => none

/-- The nodes that a binding keeps without a place in the document. -/
def aside (b : Binding) : List NodeId :=
  match b.directive with
  | .presence _ placeholder present => [if present then placeholder else b.node]
  | .repetition _ template _ _ => [template]
  | _ => []

/-- The text that a binding has put into its element, if it has. -/
def filled? (b : Binding) : Option String :=
  match b.directive with
  | .text _ shown => shown
  | _ => none

end Binding

/-- What the bindings keep in the slot of a node: the node itself where none takes care of
    it. -/
def occupants (bs : List Binding) (x : NodeId) : List NodeId :=
  (bs.findSome? fun b => if b.node = x then b.occupants? else none).getD [x]

/-- An element whose content is a text that a binding has put there. -/
def Filled (bs : List Binding) (x : NodeId) : Prop :=
  ∃ b ∈ bs, b.node = x ∧ b.filled? ≠ none

/-- A node of the first document that no filled element lies above. -/
structure Standing (t₀ : HostTree Reaction) (bs : List Binding) (x : NodeId) : Prop where
  live : t₀.Live x
  free : ∀ y, Filled bs y → t₀.Below y x → y = x

/-- The attributes of the first document that the bindings come from. -/
structure Declared (config : Config) (t₀ : HostTree Reaction) (bs : List Binding) : Prop where
  source : ∀ b ∈ bs, (t₀.figure b.node).source? (config.attributeName b.kind) = some b.source
  /-- No attribute has two bindings. -/
  once : (bs.map fun b => (b.node, b.kind)).Nodup
  /-- A repeated element is only repeated. -/
  alone : ∀ b ∈ bs, ∀ c ∈ bs, b.node = c.node → b.kind = .repetition → c.kind = .repetition
  /-- What takes care of a slot has one. -/
  hooked : ∀ b ∈ bs, b.kind = .presence ∨ b.kind = .repetition → ∃ p, b.node ∈ t₀.children p
  /-- Nothing is declared inside an element that shows a text. -/
  apart : ∀ b ∈ bs, ∀ c ∈ bs, b.kind = .bind → t₀.Below b.node c.node → c.node = b.node

/-- The invariant that ties a document to the bindings in it. -/
structure Kept (t₀ : HostTree Reaction) (bs : List Binding) (t : HostTree Reaction) : Prop where
  linked : t.Linked
  /-- Standing nodes exist, with the attributes they had. -/
  stays : ∀ x, Standing t₀ bs x → t.Live x
  kind : ∀ x, Standing t₀ bs x → (t.figure x).kind = (t₀.figure x).kind
  attributes : ∀ x, Standing t₀ bs x → (t.figure x).attributes = (t₀.figure x).attributes
  /-- A standing node is below its parent or on its own. -/
  above : ∀ x, Standing t₀ bs x → t.parent? x = none ∨ t.parent? x = t₀.parent? x
  slots : ∀ x, Standing t₀ bs x → ¬ Filled bs x →
    t.children x = (t₀.children x).flatMap (occupants bs)
  texts : ∀ b ∈ bs, ∀ text, b.filled? = some text → t.ShowsText b.node text
  /-- The nodes that bindings have made are others than the standing ones. -/
  made : ∀ b ∈ bs, ∀ o ∈ b.own, t.Live o ∧ ¬ Standing t₀ bs o
  ownAbove : ∀ b ∈ bs, ∀ o ∈ b.own, t.parent? o = none ∨ t.parent? o = t₀.parent? b.node
  distinct : (bs.flatMap Binding.own).Nodup
  aside : ∀ b ∈ bs, ∀ o ∈ b.aside, t.parent? o = none
  /-- A template is a copy of its element. -/
  templates : ∀ b ∈ bs, ∀ clause template placeholder rendered,
    b.directive = .repetition clause template placeholder rendered →
      ∃ shape, t₀.Draws b.node shape ∧ t.Draws template shape

variable {config : Config} {t₀ t t' : HostTree Reaction} {bs : List Binding} {b c : Binding}
  {x y p a : NodeId}

/-! ## Slots -/

theorem Binding.kind_of_filled? {text : String} (h : b.filled? = some text) : b.kind = .bind := by
  rw [filled?] at h
  rw [kind]
  cases hd : b.directive <;> rw [hd] at h
  all_goals first | rfl | cases h

theorem Binding.kind_of_occupants? {os : List NodeId} (h : b.occupants? = some os) :
    b.kind = .presence ∨ b.kind = .repetition := by
  rw [occupants?] at h
  rw [kind]
  cases hd : b.directive <;> rw [hd] at h
  all_goals first | exact .inl rfl | exact .inr rfl | cases h

theorem Declared.unique (hd : Declared config t₀ bs) (hb : b ∈ bs) (hc : c ∈ bs)
    (hnode : b.node = c.node) (hkind : b.kind = c.kind) : b = c :=
  List.inj_on_of_nodup_map hd.once hb hc (by rw [hnode, hkind])

/-- At most one binding takes care of a slot. -/
theorem Declared.occupant_unique (hd : Declared config t₀ bs) (hb : b ∈ bs) (hc : c ∈ bs)
    (hnode : b.node = c.node) (hbo : b.occupants? ≠ none) (hco : c.occupants? ≠ none) : b = c := by
  obtain ⟨os, hos⟩ := Option.ne_none_iff_exists'.1 hbo
  obtain ⟨qs, hqs⟩ := Option.ne_none_iff_exists'.1 hco
  rcases Binding.kind_of_occupants? hos with hbk | hbk
  · rcases Binding.kind_of_occupants? hqs with hck | hck
    · exact hd.unique hb hc hnode (hbk.trans hck.symm)
    · have hkind := hd.alone c hc b hb hnode.symm hck
      exact hd.unique hb hc hnode (hkind.trans hck.symm)
  · have hkind := hd.alone b hb c hc hnode hbk
    exact hd.unique hb hc hnode (hbk.trans hkind.symm)

theorem Declared.occupants_of_mem (hd : Declared config t₀ bs) (hb : b ∈ bs) {os : List NodeId}
    (hos : b.occupants? = some os) : occupants bs b.node = os := by
  rw [occupants]
  cases hfind : bs.findSome? fun c => if c.node = b.node then c.occupants? else none with
  | none =>
    have hnone := List.findSome?_eq_none_iff.1 hfind b hb
    rw [if_pos rfl, hos] at hnone
    cases hnone
  | some qs =>
    obtain ⟨c, hc, hqs⟩ := List.exists_of_findSome?_eq_some hfind
    split at hqs
    · next hnode =>
      have hbc : b = c := hd.occupant_unique hb hc hnode.symm (by rw [hos]; exact nofun)
        (by rw [hqs]; exact nofun)
      rw [Option.getD_some]
      rw [← hbc, hos] at hqs
      exact (Option.some.inj hqs).symm
    · cases hqs

theorem occupants_of_not_mem (h : ∀ b ∈ bs, b.node = x → b.occupants? = none) :
    occupants bs x = [x] := by
  rw [occupants, List.findSome?_eq_none_iff.2, Option.getD_none]
  intro b hb
  split
  · next hnode => exact h b hb hnode
  · rfl

/-- The slots of other nodes are the same when one binding is replaced, and all slots are if it
    keeps the same. -/
theorem occupants_replace {front back : List Binding} {d : Binding} (hnode : d.node = b.node)
    (hx : x ≠ b.node ∨ d.occupants? = b.occupants?) :
    occupants (front ++ d :: back) x = occupants (front ++ b :: back) x := by
  have hsame : (if d.node = x then d.occupants? else none) =
      if b.node = x then b.occupants? else none := by
    rw [hnode]
    split
    · next heq => exact hx.elim (fun hne => absurd heq.symm hne) id
    · rfl
  simp only [occupants, List.findSome?_append, List.findSome?_cons, hsame]

/-- What is declared does not depend on what the bindings remember. -/
theorem Declared.of_map {bs' : List Binding} (hd : Declared config t₀ bs)
    (hmap : bs'.map (fun b => (b.node, b.kind, b.source)) =
      bs.map fun b => (b.node, b.kind, b.source)) : Declared config t₀ bs' := by
  have hmem : ∀ b' ∈ bs', ∃ b ∈ bs, b.node = b'.node ∧ b.kind = b'.kind ∧ b.source = b'.source := by
    intro b' hb'
    have h := List.mem_map_of_mem (f := fun b : Binding => (b.node, b.kind, b.source)) hb'
    rw [hmap] at h
    obtain ⟨b, hb, heq⟩ := List.mem_map.1 h
    simp only [Prod.mk.injEq] at heq
    exact ⟨b, hb, heq⟩
  refine ⟨fun b' hb' => ?_, ?_, fun b' hb' c' hc' => ?_, fun b' hb' => ?_, fun b' hb' c' hc' => ?_⟩
  · obtain ⟨b, hb, hnode, hkind, hsource⟩ := hmem b' hb'
    rw [← hnode, ← hkind, ← hsource]
    exact hd.source b hb
  · have h := congrArg (List.map fun k : NodeId × DirectiveKind × String => (k.1, k.2.1)) hmap
    rw [List.map_map, List.map_map] at h
    show (bs'.map ((fun k : NodeId × DirectiveKind × String => (k.1, k.2.1)) ∘
      fun b => (b.node, b.kind, b.source))).Nodup
    rw [h]
    exact hd.once
  · obtain ⟨b, hb, hnode, hkind, -⟩ := hmem b' hb'
    obtain ⟨c, hc, hnode', hkind', -⟩ := hmem c' hc'
    rw [← hnode, ← hkind, ← hnode', ← hkind']
    exact hd.alone b hb c hc
  · obtain ⟨b, hb, hnode, hkind, -⟩ := hmem b' hb'
    rw [← hnode, ← hkind]
    exact hd.hooked b hb
  · obtain ⟨b, hb, hnode, hkind, -⟩ := hmem b' hb'
    obtain ⟨c, hc, hnode', hkind', -⟩ := hmem c' hc'
    rw [← hnode, ← hkind, ← hnode']
    exact hd.apart b hb c hc

/-! ## Standing nodes -/

theorem Declared.standing (hd : Declared config t₀ bs) (hb : b ∈ bs) : Standing t₀ bs b.node := by
  constructor
  · cases hn : t₀.node? b.node with
    | none =>
      have hsource := hd.source b hb
      rw [HostTree.figure, hn] at hsource
      cases hsource
    | some n => exact ⟨n, hn⟩
  · rintro y ⟨c, hc, rfl, hfilled⟩ hbelow
    obtain ⟨text, htext⟩ := Option.ne_none_iff_exists'.1 hfilled
    exact (hd.apart c hc b hb (Binding.kind_of_filled? htext) hbelow).symm

/-- The parent of a standing node is standing, and not filled. -/
theorem Standing.parent (ht : t₀.Tree) (hx : Standing t₀ bs x) (hp : x ∈ t₀.children p) :
    Standing t₀ bs p ∧ ¬ Filled bs p := by
  have hfree : ∀ y, Filled bs y → ¬ t₀.Below y p := by
    intro y hy hbelow
    obtain rfl := hx.free y hy (hbelow.tail hp)
    exact ht.acyclic.not_below hp hbelow
  refine ⟨⟨HostTree.live_of_mem_children hp, fun y hy hbelow => absurd hbelow (hfree y hy)⟩, ?_⟩
  exact fun hfilled => hfree p hfilled (HostTree.Below.refl t₀ p)

namespace Kept

/-- The parent of a standing node is its parent in the first document. -/
theorem child_of_parent? (h : Kept t₀ bs t) (ht : t₀.Tree) (hx : Standing t₀ bs x)
    (hp : t.parent? x = some p) : x ∈ t₀.children p := by
  rcases h.above x hx with hnone | hsame
  · rw [hnone] at hp
    cases hp
  · exact ht.listed (hsame ▸ hp)

/-- Above a standing node there are standing nodes only, in their old order. -/
theorem standing_of_below (h : Kept t₀ bs t) (ht : t₀.Tree) (hx : Standing t₀ bs x)
    (hbelow : t.Below a x) : Standing t₀ bs a ∧ t₀.Below a x := by
  induction hbelow with
  | refl => exact ⟨hx, HostTree.Below.refl t₀ a⟩
  | @tail y x hay hyx ih =>
    have hchild := h.child_of_parent? ht hx (h.linked.child hyx)
    obtain ⟨ha, hbelow⟩ := ih (hx.parent ht hchild).1
    exact ⟨ha, hbelow.tail hchild⟩

/-- No standing node is below its children. -/
theorem not_below_child (h : Kept t₀ bs t) (ht : t₀.Tree) (hx : Standing t₀ bs x)
    (hy : y ∈ t.children x) : ¬ t.Below y x := by
  intro hbelow
  obtain ⟨hstanding, hbelow₀⟩ := h.standing_of_below ht hx hbelow
  exact ht.acyclic.not_below (h.child_of_parent? ht hstanding (h.linked.child hy)) hbelow₀

/-- A node that a binding has made is on its own or below the parent of its element. -/
theorem parent_of_own (h : Kept t₀ bs t) (ht : t₀.Tree) (hd : Declared config t₀ bs) (hb : b ∈ bs)
    {o : NodeId} (ho : o ∈ b.own) (hp : t.parent? o = some p) :
    b.node ∈ t₀.children p ∧ Standing t₀ bs p := by
  rcases h.ownAbove b hb o ho with hnone | hsame
  · rw [hnone] at hp
    cases hp
  · have hchild := ht.listed (hsame ▸ hp)
    exact ⟨hchild, ((hd.standing hb).parent ht hchild).1⟩

/-- No standing node is below one that a binding has made. -/
theorem not_below_of_own (h : Kept t₀ bs t) (ht : t₀.Tree) (hb : b ∈ bs) {o : NodeId}
    (ho : o ∈ b.own) (hx : Standing t₀ bs x) : ¬ t.Below o x := fun hbelow =>
  (h.made b hb o ho).2 (h.standing_of_below ht hx hbelow).1

end Kept

end ReactiveTemplate
