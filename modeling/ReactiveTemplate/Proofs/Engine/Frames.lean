import ReactiveTemplate.Proofs.Engine.Copies
import ReactiveTemplate.Proofs.Engine.Layout

/-!
# What an update leaves alone

An update changes the place of one binding. Everything that other bindings keep is as it was.

* `CutOff`: a subtree that no standing node lies in.
* `Spares`: what an update leaves to the other bindings.
* `Kept.quiet`: changes that touch no slot.
* `Kept.setText`, `Kept.retouch`: a new text, and a new style or value.
-/

namespace ReactiveTemplate

variable {config : Config} {t₀ t t' : HostTree Reaction} {bs bs' front back : List Binding}
  {b b' c : Binding} {x y z p o : NodeId}

/-! ## Subtrees that can go -/

/-- A subtree below a standing node that no node lies in which is standing afterwards. -/
structure CutOff (t₀ t : HostTree Reaction) (bs bs' : List Binding) (p z : NodeId) : Prop where
  parent : t.parent? z = some p
  standing : Standing t₀ bs p
  free : ∀ x, Standing t₀ bs' x → ¬ t.Below z x
  nodes : ∀ c ∈ bs, Standing t₀ bs' c.node

namespace CutOff

/-- What lies below a node that a binding has made is elsewhere. -/
theorem own (hz : CutOff t₀ t bs bs' p z) (h : Kept t₀ bs t) (ht : t₀.Tree)
    (hd : Declared config t₀ bs) (hc : c ∈ bs) (ho : o ∈ c.own) (hne : o ≠ z)
    (hbelow : t.Below o y) : ¬ t.Below z y := by
  intro hzy
  rcases h.linked.below_total hbelow hzy with hoz | hzo
  · obtain ⟨q, hq, hoq⟩ := h.linked.below_parent hoz hne.symm
    obtain rfl := Option.some.inj (hz.parent.symm.trans hq)
    exact h.not_below_of_own ht hc ho hz.standing hoq
  · obtain ⟨q, hq, hzq⟩ := h.linked.below_parent hzo hne
    have hchild := (h.parent_of_own ht hd hc ho hq).1
    exact hz.free q ((hz.nodes c hc).parent ht hchild).1 hzq

/-- The text of another element is elsewhere. -/
theorem leaf (hz : CutOff t₀ t bs bs' p z) (h : Kept t₀ bs t) (hc : c ∈ bs) (hne : c.node ≠ p)
    {leaf : NodeId} (hleaf : leaf ∈ t.children c.node) : ¬ t.Below z leaf := by
  intro hbelow
  have hparent := h.linked.child hleaf
  by_cases heq : leaf = z
  · rw [heq, hz.parent] at hparent
    exact hne (Option.some.inj hparent).symm
  · obtain ⟨q, hq, hzq⟩ := h.linked.below_parent hbelow heq
    obtain rfl := Option.some.inj (hparent.symm.trans hq)
    exact hz.free _ (hz.nodes c hc) hzq

end CutOff

/-! ## Frames -/

/-- What an update of a binding leaves to the others: styles and values of all other nodes, the
    shapes of other copies, and all listeners. -/
structure Spares (t₀ : HostTree Reaction) (bs bs' : List Binding) (b : Binding)
    (t t' : HostTree Reaction) : Prop where
  styles : ∀ x, Standing t₀ bs' x → (b.kind = .visibility → x ≠ b.node) →
    (t'.figure x).styles = (t.figure x).styles
  values : ∀ x, Standing t₀ bs' x → (b.kind = .model → x ≠ b.node) →
    (t'.figure x).value = (t.figure x).value
  copies : ∀ c ∈ bs, (b.kind = .repetition → c.node ≠ b.node) → ∀ o ∈ c.own,
    ∀ shape, t.Draws o shape → t'.Draws o shape
  heard : ∀ x, Standing t₀ bs' x → t'.listenersOf x = t.listenersOf x
  listeners : t.KeepsListeners t'

theorem Spares.refl (t₀ : HostTree Reaction) (bs bs' : List Binding) (b : Binding)
    (t : HostTree Reaction) : Spares t₀ bs bs' b t t :=
  ⟨fun _ _ _ => rfl, fun _ _ _ => rfl, fun _ _ _ _ _ _ h => h, fun _ _ => rfl,
    HostTree.KeepsListeners.refl t⟩

/-- Replacing a binding by one that has filled at least as much makes no further node
    standing. -/
theorem Standing.of_replace {d : Binding} (hnode : d.node = b.node)
    (hfilled : b.filled? ≠ none → d.filled? ≠ none) (hx : Standing t₀ (front ++ d :: back) x) :
    Standing t₀ (front ++ b :: back) x := by
  refine ⟨hx.live, fun y hy => hx.free y ?_⟩
  obtain ⟨c, hc, rfl, hne⟩ := hy
  rcases List.mem_append.1 hc with hc | hc
  · exact ⟨c, List.mem_append_left _ hc, rfl, hne⟩
  · rcases List.mem_cons.1 hc with rfl | hc
    · exact ⟨d, by simp, hnode, hfilled hne⟩
    · exact ⟨c, by simp [hc], rfl, hne⟩

/-- A property of all bindings that one replaced binding shares. -/
theorem forall_replace {d : Binding} {P : Binding → Prop} (h : ∀ c ∈ front ++ b :: back, P c)
    (hd : P b → P d) : ∀ c ∈ front ++ d :: back, P c := by
  intro c hc
  rcases List.mem_append.1 hc with hc | hc
  · exact h c (List.mem_append_left _ hc)
  · rcases List.mem_cons.1 hc with rfl | hc
    · exact hd (h b (by simp))
    · exact h c (by simp [hc])

theorem Binding.mem_of_mem_aside (ho : o ∈ b.aside) :
    b.occupants? ≠ none ∧ (o = b.node ∨ o ∈ b.own) := by
  rw [aside] at ho
  rw [occupants?, own]
  cases hdir : b.directive with
  | presence e placeholder present =>
    rw [hdir] at ho
    refine ⟨by simp, ?_⟩
    cases present
    · exact .inl (by simpa using ho)
    · exact .inr (by simpa using ho)
  | repetition clause template placeholder rendered =>
    rw [hdir] at ho
    refine ⟨by simp, .inr ?_⟩
    rw [List.mem_singleton.1 ho]
    simp
  | _ =>
    rw [hdir] at ho
    cases ho

theorem Binding.template_mem_own {clause : ForClause} {template placeholder : NodeId}
    {rendered : List NodeId}
    (hdirective : b.directive = .repetition clause template placeholder rendered) :
    template ∈ b.own := by
  rw [own, hdirective]
  exact List.mem_cons_self

/-- Changes that touch no slot: standing nodes keep their place, and what bindings have made
    stays. -/
theorem Kept.quiet {d : Binding} (h : Kept t₀ (front ++ b :: back) t) (hnode : d.node = b.node)
    (hown : d.own = b.own) (hoccupants : d.occupants? = b.occupants?) (haside : d.aside = b.aside)
    (hdirective : ∀ clause template placeholder rendered,
      d.directive = .repetition clause template placeholder rendered → d.directive = b.directive)
    (hstanding : ∀ x, Standing t₀ (front ++ d :: back) x → Standing t₀ (front ++ b :: back) x)
    (hfilled : ∀ x, Filled (front ++ b :: back) x → Filled (front ++ d :: back) x)
    (hlinked : t'.Linked)
    (hlive : ∀ x, Standing t₀ (front ++ d :: back) x → t'.Live x)
    (hkind : ∀ x, Standing t₀ (front ++ d :: back) x → (t'.figure x).kind = (t.figure x).kind)
    (hattributes : ∀ x, Standing t₀ (front ++ d :: back) x →
      (t'.figure x).attributes = (t.figure x).attributes)
    (hparent : ∀ x, Standing t₀ (front ++ d :: back) x → t'.parent? x = t.parent? x)
    (hchildren : ∀ x, Standing t₀ (front ++ d :: back) x → ¬ Filled (front ++ d :: back) x →
      t'.children x = t.children x)
    (hmade : ∀ c ∈ front ++ b :: back, ∀ o ∈ c.own, t'.Live o ∧ t'.parent? o = t.parent? o ∧
      ∀ shape, t.Draws o shape → t'.Draws o shape)
    (hnodes : ∀ c ∈ front ++ b :: back, Standing t₀ (front ++ d :: back) c.node)
    (htexts : ∀ c ∈ front ++ d :: back, ∀ text, c.filled? = some text → t'.ShowsText c.node text) :
    Kept t₀ (front ++ d :: back) t' where
  linked := hlinked
  stays := hlive
  kind x hx := (hkind x hx).trans (h.kind x (hstanding x hx))
  attributes x hx := (hattributes x hx).trans (h.attributes x (hstanding x hx))
  above x hx := by
    rw [hparent x hx]
    exact h.above x (hstanding x hx)
  slots x hx hfree := by
    rw [hchildren x hx hfree, h.slots x (hstanding x hx) fun hf => hfree (hfilled x hf)]
    exact List.flatMap_congr fun y _ => (occupants_replace hnode (.inr hoccupants)).symm
  texts := htexts
  made := forall_replace (fun c hc o ho =>
    ⟨(hmade c hc o ho).1, fun hx => (h.made c hc o ho).2 (hstanding o hx)⟩) (by rw [hown]; exact id)
  ownAbove := forall_replace (fun c hc o ho => by
    rw [(hmade c hc o ho).2.1]
    exact h.ownAbove c hc o ho) (by rw [hown, hnode]; exact id)
  distinct := by
    have hsame : (front ++ d :: back).flatMap Binding.own =
        (front ++ b :: back).flatMap Binding.own := by
      simp only [List.flatMap_append, List.flatMap_cons, hown]
    rw [hsame]
    exact h.distinct
  aside := forall_replace (fun c hc o ho => by
    have hold := h.aside c hc o ho
    rcases (Binding.mem_of_mem_aside ho).2 with rfl | hown'
    · rw [hparent c.node (hnodes c hc), hold]
    · rw [(hmade c hc o hown').2.1, hold]) (by rw [haside]; exact id)
  templates := forall_replace (fun c hc clause template placeholder rendered hdir => by
    obtain ⟨shape, hshape, hdraws⟩ := h.templates c hc clause template placeholder rendered hdir
    have htemplate := Binding.template_mem_own hdir
    exact ⟨shape, hshape, (hmade c hc template htemplate).2.2 shape hdraws⟩)
    (fun hb clause template placeholder rendered hdir => by
      have hsame := hdirective clause template placeholder rendered hdir
      rw [hnode]
      exact hb clause template placeholder rendered (hsame ▸ hdir))

/-! ## Texts -/

/-- Another binding in the list has another node or another kind. -/
theorem Declared.ne_of_mem (hd : Declared config t₀ (front ++ b :: back)) (hc : c ∈ front ∨ c ∈ back)
    (hnode : c.node = b.node) : c.kind ≠ b.kind := by
  intro hkind
  have honce := hd.once
  rw [List.map_append, List.map_cons, List.nodup_append, List.nodup_cons] at honce
  obtain ⟨-, ⟨hback, -⟩, hfront⟩ := honce
  have hpair : (c.node, c.kind) = (b.node, b.kind) := by rw [hnode, hkind]
  rcases hc with hc | hc
  · exact hfront _ (List.mem_map_of_mem hc) (b.node, b.kind) (by simp) hpair
  · exact hback (hpair ▸ List.mem_map_of_mem hc)

/-- The bindings besides one in a list. -/
theorem mem_replace (hc : c ∈ front ++ b' :: back) : c = b' ∨ c ∈ front ∨ c ∈ back := by
  rcases List.mem_append.1 hc with hc | hc
  · exact .inr (.inl hc)
  · rcases List.mem_cons.1 hc with rfl | hc
    · exact .inl rfl
    · exact .inr (.inr hc)

theorem mem_of_beside (hc : c ∈ front ∨ c ∈ back) : c ∈ front ++ b :: back := by
  rcases hc with hc | hc <;> simp [hc]

/-- A text below another element is no node of the first document. -/
theorem Kept.leaf_ne_node (h : Kept t₀ bs t) (ht : t₀.Tree) (hd : Declared config t₀ bs)
    (hb : b ∈ bs) (hc : c ∈ bs) (hkind : c.kind = .bind) {leaf : NodeId}
    (hleaf : leaf ∈ t.children c.node) : leaf ≠ b.node := by
  rintro rfl
  have hchild := h.child_of_parent? ht (hd.standing hb) (h.linked.child hleaf)
  have hnode := hd.apart c hc b hb hkind (Relation.ReflTransGen.single hchild)
  rw [hnode] at hchild
  exact ht.acyclic.not_below hchild (HostTree.Below.refl t₀ _)

/-- What a text replaces can go: nothing that stands afterwards lies in it. -/
theorem Kept.cutOff_content (h : Kept t₀ bs t) (ht : t₀.Tree) (hd : Declared config t₀ bs)
    (hb : b ∈ bs) (hself : Filled bs' b.node)
    (hstanding : ∀ x, Standing t₀ bs' x → Standing t₀ bs x)
    (hnodes : ∀ c ∈ bs, Standing t₀ bs' c.node) (hz : z ∈ t.children b.node) :
    CutOff t₀ t bs bs' b.node z := by
  refine ⟨h.linked.child hz, hd.standing hb, fun x hx hbelow => ?_, hnodes⟩
  obtain ⟨hz', hbelow₀⟩ := h.standing_of_below ht (hstanding x hx) hbelow
  have hchild := h.child_of_parent? ht hz' (h.linked.child hz)
  obtain rfl := hx.free b.node hself (Relation.ReflTransGen.head hchild hbelow₀)
  exact ht.acyclic.not_below hchild hbelow₀

/-- A new text changes nothing below what bindings have made. -/
theorem Kept.node?_of_textSet (h : Kept t₀ bs t) (ht : t₀.Tree) (hd : Declared config t₀ bs)
    (hb : b ∈ bs) (hkind : b.kind = .bind) {text : String} (htext : t.TextSet t' b.node text)
    (hcut : ∀ z ∈ t.children b.node, CutOff t₀ t bs bs' b.node z) (hc : c ∈ bs) (ho : o ∈ c.own)
    (hy : t.Below o y) : t'.node? y = t.node? y := by
  refine htext.kept y (HostTree.Below.live h.linked (h.made c hc o ho).1 hy) ?_ fun z hz => ?_
  · rintro rfl
    exact h.not_below_of_own ht hc ho (hd.standing hb) hy
  · refine (hcut z hz).own h ht hd hc ho ?_ hy
    rintro rfl
    have hchild := (h.parent_of_own ht hd hc ho (h.linked.child hz)).1
    have hnode := hd.apart b hb c hc hkind (Relation.ReflTransGen.single hchild)
    rw [hnode] at hchild
    exact ht.acyclic.not_below hchild (HostTree.Below.refl t₀ _)

/-- A new text leaves the text of another element. -/
theorem Kept.showsText_of_textSet (h : Kept t₀ bs t) (ht : t₀.Tree) (hd : Declared config t₀ bs)
    (hb : b ∈ bs) {text : String} (htext : t.TextSet t' b.node text)
    (hcut : ∀ z ∈ t.children b.node, CutOff t₀ t bs bs' b.node z) (hc : c ∈ bs)
    (hkind : c.kind = .bind) (hne : c.node ≠ b.node) (hsame : t'.node? c.node = t.node? c.node)
    {other : String} (hshows : t.ShowsText c.node other) : t'.ShowsText c.node other := by
  rw [HostTree.ShowsText, HostTree.children_eq_of_node?_eq hsame]
  rcases hshows with hempty | ⟨hsome, leaf, hchildren, hleaf⟩
  · exact .inl hempty
  · have hmem : leaf ∈ t.children c.node := by rw [hchildren]; simp
    refine .inr ⟨hsome, leaf, hchildren, ?_⟩
    rw [← hleaf]
    exact htext.kept leaf ⟨_, hleaf⟩ (h.leaf_ne_node ht hd hb hc hkind hmem)
      fun z hz => (hcut z hz).leaf h hc hne hmem

theorem Kept.setText (h : Kept t₀ (front ++ b :: back) t) (ht : t₀.Tree)
    (hd : Declared config t₀ (front ++ b :: back)) {e : CompiledExpression}
    {shown : Option String} (hdirective : b.directive = .text e shown) {text : String}
    (htext : t.TextSet t' b.node text) :
    Kept t₀ (front ++ { b with directive := .text e (some text) } :: back) t' ∧
      Spares t₀ (front ++ b :: back)
        (front ++ { b with directive := .text e (some text) } :: back) b t t' := by
  let b' : Binding := { b with directive := .text e (some text) }
  let bs := front ++ b :: back
  let bs' := front ++ b' :: back
  have hb : b ∈ bs := by simp [bs]
  have hkind : b.kind = .bind := by rw [Binding.kind, hdirective]; rfl
  have hd' : Declared config t₀ bs' := hd.of_map (by simp [bs', b', Binding.kind, hdirective,
    Directive.kind])
  have hnodes : ∀ c ∈ bs, Standing t₀ bs' c.node :=
    forall_replace (d := b) (fun c hc => hd'.standing hc) id
  have hstanding : ∀ x, Standing t₀ bs' x → Standing t₀ bs x := fun x hx =>
    Standing.of_replace (d := b') rfl (fun _ h => by cases h) hx
  have hself : Filled bs' b.node := ⟨b', by simp [bs'], rfl, fun h => by cases h⟩
  have hfilled : ∀ x, Filled bs x → Filled bs' x := by
    rintro x ⟨c, hc, rfl, hne⟩
    rcases mem_replace hc with rfl | hc
    · exact hself
    · exact ⟨c, mem_of_beside hc, rfl, hne⟩
  have hcut : ∀ z ∈ t.children b.node, CutOff t₀ t bs bs' b.node z := fun z hz =>
    h.cutOff_content ht hd hb hself hstanding hnodes hz
  have hsame : ∀ x, Standing t₀ bs' x → x ≠ b.node → t'.node? x = t.node? x := fun x hx hne =>
    htext.kept x (h.stays x (hstanding x hx)) hne fun z hz => (hcut z hz).free x hx
  have hcontent : ∀ x, Standing t₀ bs' x → t'.content x = t.content x := by
    intro x hx
    by_cases hne : x = b.node
    · rw [hne, htext.content]
    · exact HostTree.content_eq_of_node?_eq (hsame x hx hne)
  have hfigure : ∀ x, Standing t₀ bs' x → t'.figure x = t.figure x := fun x hx =>
    HostTree.figure_eq_of_content_eq (hcontent x hx)
  have hbelow : ∀ c ∈ bs, ∀ o ∈ c.own, ∀ y, t.Below o y → t'.node? y = t.node? y :=
    fun c hc o ho y => h.node?_of_textSet ht hd hb hkind htext hcut hc ho
  have hdraws : ∀ c ∈ bs, ∀ o ∈ c.own, ∀ shape, t.Draws o shape → t'.Draws o shape :=
    fun c hc o ho shape hdrawn => hdrawn.frame (hbelow c hc o ho)
  constructor
  · refine Kept.quiet (d := b') h rfl ?_ ?_ ?_ (by simp) hstanding hfilled htext.linked ?_ ?_ ?_ ?_
      ?_ ?_ hnodes ?_
    · simp only [Binding.own, b', hdirective]
    · simp only [Binding.occupants?, b', hdirective]
    · simp only [Binding.aside, b', hdirective]
    · exact fun x hx => (h.stays x (hstanding x hx)).of_content (hcontent x hx)
    · exact fun x hx => congrArg Figure.kind (hfigure x hx)
    · exact fun x hx => congrArg Figure.attributes (hfigure x hx)
    · intro x hx
      by_cases hne : x = b.node
      · rw [hne, htext.parent]
      · exact HostTree.parent?_eq_of_node?_eq (hsame x hx hne)
    · intro x hx hfree
      refine HostTree.children_eq_of_node?_eq (hsame x hx ?_)
      rintro rfl
      exact hfree hself
    · intro c hc o ho
      have ho' := hbelow c hc o ho o (HostTree.Below.refl t o)
      exact ⟨(h.made c hc o ho).1.of_node? ho', HostTree.parent?_eq_of_node?_eq ho',
        hdraws c hc o ho⟩
    · intro c hc s hs
      rcases mem_replace hc with rfl | hc
      · obtain rfl := Option.some.inj hs
        exact htext.shows
      · have hcbs : c ∈ bs := mem_of_beside hc
        have hckind := Binding.kind_of_filled? hs
        have hne : c.node ≠ b.node := fun hnode => hd.ne_of_mem hc hnode (hckind.trans hkind.symm)
        exact h.showsText_of_textSet ht hd hb htext hcut hcbs hckind hne
          (hsame c.node (hnodes c hcbs) hne) (h.texts c hcbs s hs)
  · exact ⟨fun x hx _ => congrArg Figure.styles (hfigure x hx),
      fun x hx _ => congrArg Figure.value (hfigure x hx), fun c hc _ => hdraws c hc,
      fun x hx => HostTree.listenersOf_eq_of_content_eq (hcontent x hx), htext.keepsListeners⟩

/-! ## Styles and values -/

/-- A change of a node that keeps all but its style and value. -/
structure Retouches (change : Node Reaction → Node Reaction) : Prop where
  kind : ∀ n, (change n).kind = n.kind
  attributes : ∀ n, (change n).attributes = n.attributes
  parent : ∀ n, (change n).parent = n.parent
  children : ∀ n, (change n).children = n.children
  listeners : ∀ n, (change n).listeners = n.listeners

/-- A part of a node that a change keeps, everywhere. -/
theorem HostTree.elim_modify {α β : Type} {t : HostTree α} {change : Node α → Node α}
    {part : Node α → β} (hpart : ∀ n, part (change n) = part n) (none' : β) (id x : NodeId) :
    ((t.modify id change).node? x).elim none' part = (t.node? x).elim none' part := by
  rw [node?_modify]
  split
  · next heq =>
    rw [heq]
    cases t.node? id with
    | none => rfl
    | some n => exact hpart n
  · rfl

theorem HostTree.live_modify {α : Type} {t : HostTree α} {x : NodeId} (hx : t.Live x) (id : NodeId)
    (change : Node α → Node α) : (t.modify id change).Live x := by
  obtain ⟨n, hn⟩ := hx
  rw [Live, node?_modify]
  split
  · next heq => exact ⟨change n, by rw [← heq, hn]; rfl⟩
  · exact ⟨n, hn⟩

theorem HostTree.figure_modify {α β : Type} {t : HostTree α} {change : Node α → Node α}
    (part : Figure → β) (hpart : ∀ n, part (change n).figure = part n.figure) (id x : NodeId) :
    part ((t.modify id change).figure x) = part (t.figure x) := by
  rw [figure, figure, node?_modify]
  split
  · next heq =>
    rw [heq]
    cases t.node? id with
    | none => rfl
    | some n => exact hpart n
  · rfl

theorem Kept.retouch (h : Kept t₀ (front ++ b :: back) t) (ht : t₀.Tree)
    (hd : Declared config t₀ (front ++ b :: back)) {change : Node Reaction → Node Reaction}
    (hchange : Retouches change)
    (hstyles : b.kind ≠ .visibility → ∀ n, (change n).styles = n.styles)
    (hvalues : b.kind ≠ .model → ∀ n, (change n).value = n.value) :
    Kept t₀ (front ++ b :: back) (t.modify b.node change) ∧
      Spares t₀ (front ++ b :: back) (front ++ b :: back) b t (t.modify b.node change) := by
  let bs := front ++ b :: back
  have hb : b ∈ bs := by simp [bs]
  have hnodes : ∀ c ∈ bs, Standing t₀ bs c.node := fun c hc => hd.standing hc
  have hparent : ∀ x, (t.modify b.node change).parent? x = t.parent? x := by
    intro x
    have helim : ∀ s : HostTree Reaction, s.parent? x = (s.node? x).elim none Node.parent := by
      intro s
      rw [HostTree.parent?]
      cases s.node? x <;> rfl
    rw [helim, helim, HostTree.elim_modify hchange.parent]
  have hchildren : ∀ x, (t.modify b.node change).children x = t.children x :=
    HostTree.elim_modify hchange.children [] b.node
  have hbelow : ∀ c ∈ bs, ∀ o ∈ c.own, ∀ y, t.Below o y →
      (t.modify b.node change).node? y = t.node? y := by
    intro c hc o ho y hy
    refine HostTree.node?_modify_of_ne ?_ change
    rintro rfl
    exact h.not_below_of_own ht hc ho (hd.standing hb) hy
  have hdraws : ∀ c ∈ bs, ∀ o ∈ c.own, ∀ shape, t.Draws o shape →
      (t.modify b.node change).Draws o shape :=
    fun c hc o ho shape hdrawn => hdrawn.frame (hbelow c hc o ho)
  constructor
  · refine h.quiet rfl rfl rfl rfl (fun _ _ _ _ _ => rfl) (fun _ hx => hx) (fun _ hx => hx)
      (h.linked.modify b.node hchange.parent hchange.children) ?_ ?_ ?_ (fun x _ => hparent x)
      (fun x _ _ => hchildren x) ?_ hnodes ?_
    · exact fun x hx => HostTree.live_modify (h.stays x hx) _ _
    · exact fun x _ => HostTree.figure_modify Figure.kind hchange.kind _ x
    · exact fun x _ => HostTree.figure_modify Figure.attributes hchange.attributes _ x
    · exact fun c hc o ho => ⟨HostTree.live_modify (h.made c hc o ho).1 _ _, hparent o,
        hdraws c hc o ho⟩
    · intro c hc s hs
      rw [HostTree.ShowsText, hchildren]
      rcases h.texts c hc s hs with hempty | ⟨hne, leaf, hleaves, hleaf⟩
      · exact .inl hempty
      · refine .inr ⟨hne, leaf, hleaves, ?_⟩
        have hmem : leaf ∈ t.children c.node := by rw [hleaves]; simp
        rw [HostTree.node?_modify_of_ne
          (h.leaf_ne_node ht hd hb hc (Binding.kind_of_filled? hs) hmem), hleaf]
  · refine ⟨fun x _ hne => ?_, fun x _ hne => ?_, fun c hc _ => hdraws c hc, fun x _ => ?_,
      HostTree.KeepsListeners.of_modify t b.node hchange.listeners⟩
    · by_cases hkind : b.kind = .visibility
      · exact congrArg Figure.styles
          (HostTree.figure_eq_of_node?_eq (HostTree.node?_modify_of_ne (hne hkind) change))
      · exact HostTree.figure_modify Figure.styles (hstyles hkind) _ x
    · by_cases hkind : b.kind = .model
      · exact congrArg Figure.value
          (HostTree.figure_eq_of_node?_eq (HostTree.node?_modify_of_ne (hne hkind) change))
      · exact HostTree.figure_modify Figure.value (hvalues hkind) _ x
    · exact HostTree.elim_modify hchange.listeners [] b.node x

end ReactiveTemplate
