import Mathlib.Data.List.Pairwise
import ReactiveTemplate.Proofs.Engine.Frames

/-!
# What stands in a slot

The slot of a binding gets another node, or new copies in the place of the old ones.

* `Kept.slot`: the slot of a node among those of its siblings.
* `Exchange`, `Kept.exchange`: another node in a slot that holds a single one.
* `Refilled`, `Steady`: an exchange of copies, and what it leaves alone.
* `Restocked.kept_after`, `Restocked.spares`: other copies in the slot of a list.
-/

namespace ReactiveTemplate

variable {config : Config} {t₀ t t' : HostTree Reaction} {bs bs' front back : List Binding}
  {b b' c : Binding} {x y z p o : NodeId}

/-! ## Slots among others -/

/-- The slot of a node among those of its siblings. -/
theorem Kept.slot (h : Kept t₀ bs t) (ht : t₀.Tree) (hx : Standing t₀ bs x)
    (hp : x ∈ t₀.children p) :
    ∃ left right, t₀.children p = left ++ x :: right ∧ x ∉ left ∧ x ∉ right ∧
      t.children p = left.flatMap (occupants bs) ++ (occupants bs x ++
        right.flatMap (occupants bs)) := by
  obtain ⟨left, right, hsplit⟩ := List.append_of_mem hp
  obtain ⟨hstanding, hfree⟩ := hx.parent ht hp
  have hnodup := ht.linked.nodup p
  rw [hsplit, List.nodup_append, List.nodup_cons] at hnodup
  obtain ⟨-, ⟨hright, -⟩, hapart⟩ := hnodup
  refine ⟨left, right, hsplit, fun hleft => ?_, hright, ?_⟩
  · exact hapart x hleft x (by simp) rfl
  · rw [h.slots p hstanding hfree, hsplit, List.flatMap_append, List.flatMap_cons]

/-- The slots of other nodes hold what they held. -/
theorem flatMap_occupants {xs : List NodeId} (hx : x ∉ xs)
    (hothers : ∀ y, y ≠ x → occupants bs' y = occupants bs y) :
    xs.flatMap (occupants bs') = xs.flatMap (occupants bs) :=
  List.flatMap_congr fun y hy => hothers y fun heq => hx (heq ▸ hy)

/-- A node that bindings have made belongs to one of them. -/
theorem own_unique (hdistinct : (bs.flatMap Binding.own).Nodup) (hb : b ∈ bs) (hc : c ∈ bs)
    (ho : o ∈ b.own) (ho' : o ∈ c.own) : b = c := by
  by_contra hne
  have hapart := (List.nodup_flatMap.1 hdistinct).2
  have hsymm : Std.Symm (Function.onFun List.Disjoint Binding.own) :=
    ⟨fun _ _ h _ ha hb => h hb ha⟩
  exact hapart.forall hb hc hne ho ho'

theorem Binding.filled?_of_occupants? (h : b.occupants? ≠ none) : b.filled? = none := by
  rw [occupants?] at h
  rw [filled?]
  cases hdir : b.directive <;> rw [hdir] at h
  all_goals first | rfl | exact absurd rfl h

/-- Bindings without a text of their own do not count. -/
theorem Filled.of_replace {d : Binding} (hd : d.filled? = none)
    (h : Filled (front ++ d :: back) x) : Filled (front ++ b :: back) x := by
  obtain ⟨c, hc, rfl, hne⟩ := h
  rcases mem_replace hc with rfl | hc
  · exact absurd hd hne
  · exact ⟨c, mem_of_beside hc, rfl, hne⟩

/-- The document node is standing. -/
theorem HostTree.Tree.root_standing (ht : t₀.Tree) (bs : List Binding) :
    Standing t₀ bs HostTree.root := by
  refine ⟨ht.linked.rooted, fun y _ hbelow => ?_⟩
  by_contra hne
  exact ht.linked.not_below_root hne hbelow

/-! ## Another node in a slot -/

namespace HostTree.Replaced

variable {old new : NodeId} {left right : List NodeId}

/-- What the slot does not lie below looks as before. -/
theorem draws (hrep : t.Replaced t' p old new left right) (hout : ¬ t.Below o p)
    {shape : Branch Figure} (hdrawn : t.Draws o shape) : t'.Draws o shape := by
  obtain ⟨d, hd, rfl, rfl⟩ := hdrawn
  refine ⟨d, hd.of_children (fun y hy => (hd.live hy).of_content (hrep.content y)) fun y hy => ?_,
    rfl, d.map_congr fun y _ => figure_eq_of_content_eq (hrep.content y)⟩
  rw [hrep.children, if_neg]
  rintro rfl
  exact hout (hd.mem_labels_iff.1 hy)

/-- A text that is shown elsewhere stays. -/
theorem showsText (hrep : t.Replaced t' p old new left right) (hl : t.Linked)
    (hchildren : t.children p = left ++ old :: right) (hfree : t.parent? new = none) (hne : x ≠ p)
    {text : String} (hshows : t.ShowsText x text) : t'.ShowsText x text := by
  rw [ShowsText, hrep.children, if_neg hne]
  rcases hshows with hempty | ⟨hsome, leaf, hleaves, hleaf⟩
  · exact .inl hempty
  · refine .inr ⟨hsome, leaf, hleaves, ?_⟩
    have hparent : t.parent? leaf = some x := hl.child (by rw [hleaves]; simp)
    have holdparent : t.parent? old = some p := hl.child (by rw [hchildren]; simp)
    rw [← hleaf]
    refine node?_eq_of_content_eq (hrep.content leaf) ?_ ?_
    · rw [hrep.parent, if_neg, if_neg]
      · rintro rfl
        rw [hfree] at hparent
        cases hparent
      · rintro rfl
        exact hne (Option.some.inj (hparent.symm.trans holdparent))
    · rw [hrep.children, if_neg]
      rintro rfl
      rw [children_of_node? hleaf] at hchildren
      exact absurd hchildren.symm (by simp [textLeaf, Node.blank])

end HostTree.Replaced

/-- What another node in the place of the single one in the slot of a binding needs. The bindings
    before and after differ in that binding only. -/
structure Exchange (config : Config) (t₀ t : HostTree Reaction) (bs bs' : List Binding)
    (b' : Binding) (old new : NodeId) : Prop where
  declared : Declared config t₀ bs'
  mem : b' ∈ bs'
  beside : ∀ c ∈ bs', c = b' ∨ c ∈ bs
  filled : ∀ x, Filled bs' x ↔ Filled bs x
  others : ∀ x, x ≠ b'.node → occupants bs' x = occupants bs x
  before : occupants bs b'.node = [old]
  after : b'.occupants? = some [new]
  node : new = b'.node ∨ new ∈ b'.own
  free : t.parent? new = none
  made : ∀ o ∈ b'.own, (t.Live o ∧ ¬ Standing t₀ bs o) ∧
    (t.parent? o = none ∨ t.parent? o = t₀.parent? b'.node)
  distinct : (bs'.flatMap Binding.own).Nodup
  aside : ∀ o ∈ b'.aside, o = old ∨ o ≠ new ∧ t.parent? o = none
  templates : ∀ clause template placeholder rendered,
    b'.directive = .repetition clause template placeholder rendered →
      ∃ shape, t₀.Draws b'.node shape ∧ t.Draws template shape

/-- Which nodes are standing depends on which ones have a text of their own. -/
theorem standing_congr (hfilled : ∀ x, Filled bs' x ↔ Filled bs x) :
    Standing t₀ bs' x ↔ Standing t₀ bs x :=
  ⟨fun hx => ⟨hx.live, fun y hy => hx.free y ((hfilled y).2 hy)⟩,
    fun hx => ⟨hx.live, fun y hy => hx.free y ((hfilled y).1 hy)⟩⟩

namespace Exchange

variable {old new : NodeId}

theorem standing (hx : Exchange config t₀ t bs bs' b' old new) : Standing t₀ bs b'.node :=
  (standing_congr hx.filled).1 (hx.declared.standing hx.mem)

/-- What any of the bindings has made is there, and on its own or at its slot. -/
theorem own (hx : Exchange config t₀ t bs bs' b' old new) (h : Kept t₀ bs t) (hc : c ∈ bs')
    (ho : o ∈ c.own) : (t.Live o ∧ ¬ Standing t₀ bs o) ∧
      (t.parent? o = none ∨ t.parent? o = t₀.parent? c.node) := by
  rcases hx.beside c hc with rfl | hcbs
  · exact hx.made o ho
  · exact ⟨h.made c hcbs o ho, h.ownAbove c hcbs o ho⟩

theorem live (hx : Exchange config t₀ t bs bs' b' old new) (h : Kept t₀ bs t) : t.Live new := by
  rcases hx.node with rfl | hnew
  · exact h.stays _ hx.standing
  · exact (hx.made new hnew).1.1

theorem eq_node (hx : Exchange config t₀ t bs bs' b' old new) (hnew : Standing t₀ bs new) :
    new = b'.node :=
  hx.node.resolve_right fun hmem => (hx.made new hmem).1.2 hnew

theorem eq_of_own (hx : Exchange config t₀ t bs bs' b' old new) (h : Kept t₀ bs t) (hc : c ∈ bs')
    (hnew : new ∈ c.own) : c = b' := by
  refine own_unique hx.distinct hc hx.mem hnew (hx.node.resolve_left ?_)
  rintro rfl
  exact (hx.own h hc hnew).1.2 hx.standing

theorem ne_root (hx : Exchange config t₀ t bs bs' b' old new) (ht : t₀.Tree)
    (hp : b'.node ∈ t₀.children p) : new ≠ HostTree.root := by
  rintro rfl
  exact ht.linked.ne_root hp (hx.eq_node (ht.root_standing bs)).symm

/-- What is kept out of the tree is not the new node. -/
theorem aside_all (hx : Exchange config t₀ t bs bs' b' old new) (h : Kept t₀ bs t) (hc : c ∈ bs')
    (ho : o ∈ c.aside) : o = old ∨ o ≠ new ∧ t.parent? o = none := by
  by_cases hcb : c = b'
  · exact hx.aside o (hcb ▸ ho)
  · refine .inr ⟨?_, h.aside c ((hx.beside c hc).resolve_left hcb) o ho⟩
    rintro rfl
    have hsome : b'.occupants? ≠ none := by rw [hx.after]; exact nofun
    obtain ⟨hcsome, rfl | hmem⟩ := Binding.mem_of_mem_aside ho
    · have hnode := hx.eq_node ((standing_congr hx.filled).1 (hx.declared.standing hc))
      exact hcb (hx.declared.occupant_unique hc hx.mem hnode hcsome hsome)
    · exact hcb (hx.eq_of_own h hc hmem)

theorem templates_all (hx : Exchange config t₀ t bs bs' b' old new) (h : Kept t₀ bs t)
    (hc : c ∈ bs') {clause : ForClause} {template placeholder : NodeId} {rendered : List NodeId}
    (hdirective : c.directive = .repetition clause template placeholder rendered) :
    ∃ shape, t₀.Draws c.node shape ∧ t.Draws template shape := by
  rcases hx.beside c hc with rfl | hcbs
  · exact hx.templates _ _ _ _ hdirective
  · exact h.templates c hcbs _ _ _ _ hdirective

/-- A binding with a text is not the one whose slot gets another node. -/
theorem mem_of_filled? (hx : Exchange config t₀ t bs bs' b' old new) (hc : c ∈ bs')
    {text : String} (htext : c.filled? = some text) : c ∈ bs := by
  refine (hx.beside c hc).resolve_left ?_
  rintro rfl
  rw [Binding.filled?_of_occupants? (by rw [hx.after]; exact nofun)] at htext
  cases htext

end Exchange

/-- Another node takes the place of the single one in a slot. -/
theorem Kept.exchange {old new : NodeId} (h : Kept t₀ bs t) (ht : t₀.Tree)
    (hx : Exchange config t₀ t bs bs' b' old new) :
    ∃ t', t.replace old new = (.ok (), t') ∧ Kept t₀ bs' t' ∧
      (∀ x, t'.content x = t.content x) ∧
      ∀ o, ¬ Standing t₀ bs o → ∀ shape, t.Draws o shape → t'.Draws o shape := by
  have hsame : ∀ x, Standing t₀ bs' x ↔ Standing t₀ bs x := fun x => standing_congr hx.filled
  obtain ⟨p, hp⟩ := hx.declared.hooked b' hx.mem (Binding.kind_of_occupants? hx.after)
  obtain ⟨hpstanding, hpfree⟩ := hx.standing.parent ht hp
  obtain ⟨left, right, hsplit, hleft, hright, hchildren⟩ := h.slot ht hx.standing hp
  rw [hx.before, List.singleton_append] at hchildren
  obtain ⟨t', hreplace, hrep⟩ := HostTree.replace_spec h.linked hchildren (hx.live h) hx.free
    (hx.ne_root ht hp)
  have hfigure : ∀ x, t'.figure x = t.figure x := fun x =>
    HostTree.figure_eq_of_content_eq (hrep.content x)
  have hsubtree : ∀ o, ¬ Standing t₀ bs o → ∀ shape, t.Draws o shape → t'.Draws o shape :=
    fun o ho shape => hrep.draws fun hbelow => ho (h.standing_of_below ht hpstanding hbelow).1
  refine ⟨t', hreplace, ?_, hrep.content, hsubtree⟩
  constructor
  case linked => exact hrep.linked
  case stays => exact fun x hx => (h.stays x ((hsame x).1 hx)).of_content (hrep.content x)
  case kind =>
    intro x hx
    rw [hfigure]
    exact h.kind x ((hsame x).1 hx)
  case attributes =>
    intro x hx
    rw [hfigure]
    exact h.attributes x ((hsame x).1 hx)
  case above =>
    intro x hstanding
    rw [hrep.parent]
    split
    · exact .inl rfl
    · split
      · next heq =>
        rw [heq, hx.eq_node (heq ▸ (hsame x).1 hstanding)]
        exact .inr (ht.linked.child hp).symm
      · exact h.above x ((hsame x).1 hstanding)
  case slots =>
    intro x hstanding hxfree
    rw [hrep.children]
    split
    · next heq =>
      rw [heq, hsplit, List.flatMap_append, List.flatMap_cons, flatMap_occupants hleft hx.others,
        flatMap_occupants hright hx.others, hx.declared.occupants_of_mem hx.mem hx.after,
        List.singleton_append]
    · next hne =>
      rw [h.slots x ((hsame x).1 hstanding) fun hf => hxfree ((hx.filled x).2 hf)]
      refine (flatMap_occupants (fun hmem => hne ?_) hx.others).symm
      exact Option.some.inj ((ht.linked.child hmem).symm.trans (ht.linked.child hp))
  case texts =>
    intro c hc text htext
    have hcbs := hx.mem_of_filled? hc htext
    have hne : c.node ≠ p := by
      rintro rfl
      exact hpfree ⟨c, hcbs, rfl, by rw [htext]; exact nofun⟩
    exact hrep.showsText h.linked hchildren hx.free hne (h.texts c hcbs text htext)
  case made =>
    intro c hc o ho
    obtain ⟨⟨hl, hs⟩, -⟩ := hx.own h hc ho
    exact ⟨hl.of_content (hrep.content o), fun hstanding => hs ((hsame o).1 hstanding)⟩
  case ownAbove =>
    intro c hc o ho
    rw [hrep.parent]
    split
    · exact .inl rfl
    · split
      · next heq =>
        rw [hx.eq_of_own h hc (heq ▸ ho)]
        exact .inr (ht.linked.child hp).symm
      · exact (hx.own h hc ho).2
  case distinct => exact hx.distinct
  case aside =>
    intro c hc o ho
    rw [hrep.parent]
    split
    · rfl
    · next hne =>
      obtain ⟨hnew, hnone⟩ := (hx.aside_all h hc ho).resolve_left hne
      rw [if_neg hnew, hnone]
  case templates =>
    intro c hc clause template placeholder rendered hdir
    have htemplate := Binding.template_mem_own hdir
    obtain ⟨shape, hshape, hdraws⟩ := hx.templates_all h hc hdir
    exact ⟨shape, hshape, hsubtree template (hx.own h hc htemplate).1.2 shape hdraws⟩

/-! ## Other copies in a slot -/

/-- What exchanging the copies behind a placeholder does: the old ones are gone with all that
    lies below them, and nothing below a new one was there before. -/
structure Refilled (t t' : HostTree Reaction) (p placeholder : NodeId)
    (gone copies left right : List NodeId) : Prop where
  linked : t'.Linked
  kept : ∀ y, t.Live y → y ≠ p → (∀ r ∈ gone, ¬ t.Below r y) → t'.node? y = t.node? y
  content : t'.content p = t.content p
  parent : t'.parent? p = t.parent? p
  children : t'.children p = left ++ placeholder :: (copies ++ right)
  new : ∀ x ∈ copies, ∀ y, t'.Below x y → t.Live y → ∃ r ∈ gone, t.Below r y
  listeners : t.KeepsListeners t'

/-- What a binding has put into its slot can go. -/
theorem Kept.cutOff (h : Kept t₀ bs t) (ht : t₀.Tree) (hd : Declared config t₀ bs) (hb : b ∈ bs)
    (ho : o ∈ b.own) (hp : t.parent? o = some p) : CutOff t₀ t bs bs p o :=
  ⟨hp, (h.parent_of_own ht hd hb ho hp).2, fun _ hx => h.not_below_of_own ht hb ho hx,
    fun _ hc => hd.standing hc⟩

/-- What a binding has made is nothing of the bindings beside it. -/
theorem own_beside (hdistinct : ((front ++ b :: back).flatMap Binding.own).Nodup)
    (hc : c ∈ front ∨ c ∈ back) (ho : o ∈ c.own) : o ∉ b.own := by
  intro hob
  rw [List.flatMap_append, List.flatMap_cons, List.nodup_append, List.nodup_append] at hdistinct
  obtain ⟨-, ⟨-, -, hback⟩, hfront⟩ := hdistinct
  rcases hc with hc | hc
  · exact hfront o (List.mem_flatMap.2 ⟨c, hc, ho⟩) o (List.mem_append_left _ hob) rfl
  · exact hback o hob o (List.mem_flatMap.2 ⟨c, hc, ho⟩) rfl

/-- Exchanging what a binding has made for nodes that are new keeps everything distinct. -/
theorem nodup_own_replace {d : Binding}
    (hdistinct : ((front ++ b :: back).flatMap Binding.own).Nodup) (hown : d.own.Nodup)
    (hapart : ∀ o ∈ d.own, ∀ c, c ∈ front ∨ c ∈ back → o ∉ c.own) :
    ((front ++ d :: back).flatMap Binding.own).Nodup := by
  rw [List.flatMap_append, List.flatMap_cons, List.nodup_append, List.nodup_append] at hdistinct ⊢
  obtain ⟨hfront, ⟨-, hback, -⟩, hacross⟩ := hdistinct
  refine ⟨hfront, ⟨hown, hback, ?_⟩, ?_⟩
  · rintro o ho _ hmem rfl
    obtain ⟨c, hc, hoc⟩ := List.mem_flatMap.1 hmem
    exact hapart o ho c (.inr hc) hoc
  · rintro o ho q hq rfl
    rcases List.mem_append.1 hq with hq | hq
    · obtain ⟨c, hc, hoc⟩ := List.mem_flatMap.1 ho
      exact hapart o hq c (.inl hc) hoc
    · exact hacross o ho o (List.mem_append_right _ hq) rfl

/-- Exchanging the copies that a binding has made for new ones keeps everything distinct. -/
theorem nodup_own_refill {d : Binding} {template placeholder : NodeId} {gone copies : List NodeId}
    (hdistinct : ((front ++ b :: back).flatMap Binding.own).Nodup)
    (hb : b.own = template :: placeholder :: gone) (hd : d.own = template :: placeholder :: copies)
    (hcopies : (placeholder :: copies).Nodup)
    (hfresh : ∀ x ∈ copies, ∀ c ∈ front ++ b :: back, ∀ o ∈ c.own, o ∉ gone → x ≠ o) :
    ((front ++ d :: back).flatMap Binding.own).Nodup := by
  have hown : (template :: placeholder :: gone).Nodup :=
    hb ▸ (List.nodup_flatMap.1 hdistinct).1 b (by simp)
  rw [List.nodup_cons, List.mem_cons, not_or] at hown
  refine nodup_own_replace hdistinct ?_ fun o ho c hc hoc => ?_
  · rw [hd, List.nodup_cons, List.mem_cons, not_or]
    refine ⟨⟨hown.1.1, fun hmem => ?_⟩, hcopies⟩
    exact hfresh template hmem b (by simp) template (by rw [hb]; simp) hown.1.2 rfl
  · have hbeside := own_beside hdistinct hc hoc
    rw [hb, List.mem_cons, List.mem_cons, not_or, not_or] at hbeside
    rw [hd, List.mem_cons, List.mem_cons] at ho
    rcases ho with heq | heq | ho
    · exact hbeside.1 heq
    · exact hbeside.2.1 heq
    · exact hfresh o ho c (mem_of_beside hc) o hoc hbeside.2.2 rfl

/-- What an exchange of copies leaves alone: standing nodes keep their content and their parent,
    and their children but for the one that holds the slot, and what bindings have made keeps all
    that lies below it, unless it goes. -/
structure Steady (t₀ t t' : HostTree Reaction) (bs : List Binding) (p : NodeId)
    (gone : List NodeId) : Prop where
  node : ∀ x, Standing t₀ bs x → x ≠ p → t'.node? x = t.node? x
  content : ∀ x, Standing t₀ bs x → t'.content x = t.content x
  parent : ∀ x, Standing t₀ bs x → t'.parent? x = t.parent? x
  below : ∀ c ∈ bs, ∀ o ∈ c.own, o ∉ gone → ∀ y, t.Below o y → t'.node? y = t.node? y

namespace Steady

variable {gone : List NodeId}

theorem figure (hs : Steady t₀ t t' bs p gone) (hx : Standing t₀ bs x) :
    t'.figure x = t.figure x :=
  HostTree.figure_eq_of_content_eq (hs.content x hx)

theorem own (hs : Steady t₀ t t' bs p gone) (hc : c ∈ bs) (ho : o ∈ c.own) (hout : o ∉ gone) :
    t'.node? o = t.node? o :=
  hs.below c hc o ho hout o (HostTree.Below.refl t o)

theorem ownParent (hs : Steady t₀ t t' bs p gone) (hc : c ∈ bs) (ho : o ∈ c.own)
    (hout : o ∉ gone) : t'.parent? o = t.parent? o :=
  HostTree.parent?_eq_of_node?_eq (hs.own hc ho hout)

theorem draws (hs : Steady t₀ t t' bs p gone) (hc : c ∈ bs) (ho : o ∈ c.own) (hout : o ∉ gone)
    {shape : Branch Figure} (hdrawn : t.Draws o shape) : t'.Draws o shape :=
  hdrawn.frame (hs.below c hc o ho hout)

/-- What is kept out of the tree stays out of it. -/
theorem aside (hs : Steady t₀ t t' bs p gone) (h : Kept t₀ bs t) (hd : Declared config t₀ bs)
    (hc : c ∈ bs) (ho : o ∈ c.aside) (hout : o ∈ c.own → o ∉ gone) : t'.parent? o = none := by
  rw [← h.aside c hc o ho]
  rcases (Binding.mem_of_mem_aside ho).2 with rfl | hoc
  · exact hs.parent _ (hd.standing hc)
  · exact hs.ownParent hc hoc (hout hoc)

end Steady

namespace Refilled

variable {gone copies left right : List NodeId} {placeholder : NodeId}

/-- Old copies that can go take nothing else with them. -/
theorem steady (hnew : Refilled t t' p placeholder gone copies left right) (h : Kept t₀ bs t)
    (ht : t₀.Tree) (hd : Declared config t₀ bs) (hp : Standing t₀ bs p)
    (hgone : ∀ r ∈ gone, CutOff t₀ t bs bs p r) : Steady t₀ t t' bs p gone := by
  have hnode : ∀ x, Standing t₀ bs x → x ≠ p → t'.node? x = t.node? x := fun x hx hne =>
    hnew.kept x (h.stays x hx) hne fun r hr => (hgone r hr).free x hx
  refine ⟨hnode, fun x hx => ?_, fun x hx => ?_, fun c hc o ho hout y hy => ?_⟩
  · by_cases hne : x = p
    · rw [hne, hnew.content]
    · exact HostTree.content_eq_of_node?_eq (hnode x hx hne)
  · by_cases hne : x = p
    · rw [hne, hnew.parent]
    · exact HostTree.parent?_eq_of_node?_eq (hnode x hx hne)
  · refine hnew.kept y (HostTree.Below.live h.linked (h.made c hc o ho).1 hy) ?_ fun r hr => ?_
    · rintro rfl
      exact h.not_below_of_own ht hc ho hp hy
    · refine (hgone r hr).own h ht hd hc ho ?_ hy
      rintro rfl
      exact hout hr

/-- A copy is nothing that was there before, unless it went with the old copies. -/
theorem fresh (hnew : Refilled t t' p placeholder gone copies left right) (hx : x ∈ copies)
    (hy : t.Live y) (hout : ∀ r ∈ gone, ¬ t.Below r y) : x ≠ y := by
  rintro rfl
  obtain ⟨r, hr, hry⟩ := hnew.new x hx x (HostTree.Below.refl t' x) hy
  exact hout r hr hry

theorem fresh_own (hnew : Refilled t t' p placeholder gone copies left right) (h : Kept t₀ bs t)
    (ht : t₀.Tree) (hd : Declared config t₀ bs) (hgone : ∀ r ∈ gone, CutOff t₀ t bs bs p r)
    (hx : x ∈ copies) (hc : c ∈ bs) (ho : o ∈ c.own) (hout : o ∉ gone) : x ≠ o := by
  refine hnew.fresh hx (h.made c hc o ho).1 fun r hr => ?_
  refine (hgone r hr).own h ht hd hc ho ?_ (HostTree.Below.refl t o)
  rintro rfl
  exact hout hr

/-- A text that is shown elsewhere stays. -/
theorem showsText (hnew : Refilled t t' p placeholder gone copies left right) (h : Kept t₀ bs t)
    (hgone : ∀ r ∈ gone, CutOff t₀ t bs bs p r) (hholds : t.children p ≠ []) (hc : c ∈ bs)
    (hne : c.node ≠ p) (hsame : t'.node? c.node = t.node? c.node) {text : String}
    (hshows : t.ShowsText c.node text) : t'.ShowsText c.node text := by
  rw [HostTree.ShowsText, HostTree.children_eq_of_node?_eq hsame]
  rcases hshows with hempty | ⟨hsome, leaf, hleaves, hleaf⟩
  · exact .inl hempty
  · have hmem : leaf ∈ t.children c.node := by rw [hleaves]; simp
    refine .inr ⟨hsome, leaf, hleaves, ?_⟩
    rw [← hleaf]
    refine hnew.kept leaf ⟨_, hleaf⟩ ?_ fun r hr => (hgone r hr).leaf h hc hne hmem
    rintro rfl
    exact hholds (HostTree.children_of_node? hleaf)

theorem mem_children (hnew : Refilled t t' p placeholder gone copies left right)
    (hx : x ∈ copies) : x ∈ t'.children p := by
  rw [hnew.children]
  simp [hx]

theorem nodup (hnew : Refilled t t' p placeholder gone copies left right) :
    (placeholder :: copies).Nodup := by
  have hnodup := hnew.linked.nodup p
  rw [hnew.children, ← List.cons_append] at hnodup
  exact (List.nodup_append.1 (List.nodup_append.1 hnodup).2.1).1

end Refilled

/-- A repetition among bindings that fit the document has got other copies in the place of the old
    ones. -/
structure Restocked (config : Config) (t₀ t t' : HostTree Reaction) (front back : List Binding)
    (b b' : Binding) (clause : ForClause) (template placeholder p : NodeId)
    (gone copies left right : List NodeId) : Prop where
  tree : t₀.Tree
  kept : Kept t₀ (front ++ b :: back) t
  declared : Declared config t₀ (front ++ b :: back)
  directive : b.directive = .repetition clause template placeholder gone
  after : b' = { b with directive := .repetition clause template placeholder copies }
  split : t₀.children p = left ++ b.node :: right
  notLeft : b.node ∉ left
  notRight : b.node ∉ right
  children : t.children p = left.flatMap (occupants (front ++ b :: back)) ++
    placeholder :: (gone ++ right.flatMap (occupants (front ++ b :: back)))
  refilled : Refilled t t' p placeholder gone copies
    (left.flatMap (occupants (front ++ b :: back)))
    (right.flatMap (occupants (front ++ b :: back)))

namespace Restocked

variable {clause : ForClause} {template placeholder : NodeId} {gone copies left right : List NodeId}
  (hr : Restocked config t₀ t t' front back b b' clause template placeholder p gone copies left
    right)

include hr

theorem own : b.own = template :: placeholder :: gone := by
  rw [Binding.own, hr.directive]

theorem own_after : b'.own = template :: placeholder :: copies := by
  rw [Binding.own, hr.after]

theorem occupants_after : b'.occupants? = some (placeholder :: copies) := by
  rw [Binding.occupants?, hr.after]

theorem filled?_after : b'.filled? = none :=
  Binding.filled?_of_occupants? (by rw [hr.occupants_after]; exact nofun)

theorem filled (x : NodeId) :
    Filled (front ++ b' :: back) x ↔ Filled (front ++ b :: back) x := by
  have hunfilled : b.filled? = none := by rw [Binding.filled?, hr.directive]
  exact ⟨Filled.of_replace hr.filled?_after, Filled.of_replace hunfilled⟩

theorem standing (hx : Standing t₀ (front ++ b' :: back) x) :
    Standing t₀ (front ++ b :: back) x :=
  (standing_congr hr.filled).1 hx

theorem declared_after : Declared config t₀ (front ++ b' :: back) :=
  hr.declared.of_map (by simp [hr.after, Binding.kind, hr.directive, Directive.kind])

theorem child₀ : b.node ∈ t₀.children p := by
  rw [hr.split]
  exact List.mem_append_right _ List.mem_cons_self

theorem others (y : NodeId) (hy : y ≠ b.node) :
    occupants (front ++ b' :: back) y = occupants (front ++ b :: back) y :=
  occupants_replace (by rw [hr.after]) (.inl hy)

theorem cutOff : ∀ r ∈ gone, CutOff t₀ t (front ++ b :: back) (front ++ b :: back) p r :=
  fun r hrr => hr.kept.cutOff hr.tree hr.declared List.mem_append_cons_self
    (by rw [hr.own]; simp [hrr]) (hr.kept.linked.child (by rw [hr.children]; simp [hrr]))

theorem steady : Steady t₀ t t' (front ++ b :: back) p gone :=
  hr.refilled.steady hr.kept hr.tree hr.declared
    ((hr.declared.standing List.mem_append_cons_self).parent hr.tree hr.child₀).1 hr.cutOff

/-- What other bindings have made does not go. -/
theorem beside (hc : c ∈ front ∨ c ∈ back) (ho : o ∈ c.own) : o ∉ gone := fun hmem =>
  own_beside hr.kept.distinct hc ho (by rw [hr.own]; simp [hmem])

/-- The template and the placeholder stay. -/
theorem stays (ho : o = template ∨ o = placeholder) : o ∈ b.own ∧ o ∉ gone := by
  have hnodup : (template :: placeholder :: gone).Nodup :=
    hr.own ▸ (List.nodup_flatMap.1 hr.kept.distinct).1 b List.mem_append_cons_self
  rw [List.nodup_cons, List.nodup_cons, List.mem_cons, not_or] at hnodup
  rcases ho with rfl | rfl
  · exact ⟨by rw [hr.own]; simp, hnodup.1.2⟩
  · exact ⟨by rw [hr.own]; simp, hnodup.2.1⟩

/-- What bindings have made afterwards they had made before and it stays, or it is a new copy. -/
theorem mem_own_cases (hc : c ∈ front ++ b' :: back) (ho : o ∈ c.own) :
    (∃ d ∈ front ++ b :: back, d.node = c.node ∧ o ∈ d.own ∧ o ∉ gone) ∨
      c.node = b.node ∧ o ∈ copies := by
  rcases mem_replace hc with rfl | hcmem
  · have hnode : b.node = c.node := by rw [hr.after]
    rw [hr.own_after, List.mem_cons, List.mem_cons, ← or_assoc] at ho
    rcases ho with hstays | hcopy
    · exact .inl ⟨b, List.mem_append_cons_self, hnode, hr.stays hstays⟩
    · exact .inr ⟨hnode.symm, hcopy⟩
  · exact .inl ⟨c, mem_of_beside hcmem, rfl, ho, hr.beside hcmem ho⟩

/-- Every binding keeps its slot, the repetition with the new copies in it. -/
theorem kept_after : Kept t₀ (front ++ b' :: back) t' := by
  have hsteady := hr.steady
  have hnew := hr.refilled
  have hparent₀ : t₀.parent? b.node = some p := hr.tree.linked.child hr.child₀
  constructor
  case linked => exact hnew.linked
  case stays =>
    exact fun x hx => (hr.kept.stays x (hr.standing hx)).of_content
      (hsteady.content x (hr.standing hx))
  case kind =>
    intro x hx
    rw [hsteady.figure (hr.standing hx)]
    exact hr.kept.kind x (hr.standing hx)
  case attributes =>
    intro x hx
    rw [hsteady.figure (hr.standing hx)]
    exact hr.kept.attributes x (hr.standing hx)
  case above =>
    intro x hx
    rw [hsteady.parent x (hr.standing hx)]
    exact hr.kept.above x (hr.standing hx)
  case slots =>
    intro x hx hfree
    by_cases hxp : x = p
    · have hocc : occupants (front ++ b' :: back) b.node = placeholder :: copies := by
        rw [show b.node = b'.node by rw [hr.after]]
        exact hr.declared_after.occupants_of_mem List.mem_append_cons_self hr.occupants_after
      rw [hxp, hnew.children, hr.split, List.flatMap_append, List.flatMap_cons,
        flatMap_occupants hr.notLeft hr.others, flatMap_occupants hr.notRight hr.others, hocc,
        List.cons_append]
    · rw [HostTree.children_eq_of_node?_eq (hsteady.node x (hr.standing hx) hxp),
        hr.kept.slots x (hr.standing hx) fun hf => hfree ((hr.filled x).2 hf)]
      refine (flatMap_occupants (fun hmem => hxp ?_) hr.others).symm
      exact Option.some.inj ((hr.tree.linked.child hmem).symm.trans hparent₀)
  case texts =>
    intro c hc text htext
    have hcbs : c ∈ front ++ b :: back := by
      refine mem_of_beside ((mem_replace hc).resolve_left ?_)
      rintro rfl
      rw [hr.filled?_after] at htext
      cases htext
    have hne : c.node ≠ p := by
      rintro rfl
      exact ((hr.declared.standing List.mem_append_cons_self).parent hr.tree hr.child₀).2
        ⟨c, hcbs, rfl, by rw [htext]; simp⟩
    exact hnew.showsText hr.kept hr.cutOff (by rw [hr.children]; simp) hcbs hne
      (hsteady.node _ (hr.declared.standing hcbs) hne) (hr.kept.texts c hcbs text htext)
  case made =>
    intro c hc o ho
    rcases hr.mem_own_cases hc ho with ⟨d, hd, -, hod, hout⟩ | ⟨-, hcopy⟩
    · obtain ⟨hlive, hs⟩ := hr.kept.made d hd o hod
      exact ⟨hlive.of_node? (hsteady.own hd hod hout), fun hx => hs (hr.standing hx)⟩
    · refine ⟨hnew.linked.live (hnew.mem_children hcopy), fun hx => ?_⟩
      exact hnew.fresh hcopy (hr.kept.stays o (hr.standing hx))
        (fun r hrr => (hr.cutOff r hrr).free o (hr.standing hx)) rfl
  case ownAbove =>
    intro c hc o ho
    rcases hr.mem_own_cases hc ho with ⟨d, hd, hnode, hod, hout⟩ | ⟨hnode, hcopy⟩
    · rw [hsteady.ownParent hd hod hout, ← hnode]
      exact hr.kept.ownAbove d hd o hod
    · rw [hnode, hparent₀]
      exact .inr (hnew.linked.child (hnew.mem_children hcopy))
  case distinct =>
    exact nodup_own_refill hr.kept.distinct hr.own hr.own_after hnew.nodup fun x hx c hc o =>
      hnew.fresh_own hr.kept hr.tree hr.declared hr.cutOff hx hc
  case aside =>
    intro c hc o ho
    rcases mem_replace hc with rfl | hcmem
    · rw [hr.after] at ho
      obtain rfl := List.mem_singleton.1 ho
      exact hsteady.aside hr.kept hr.declared List.mem_append_cons_self
        (by rw [Binding.aside, hr.directive]; simp) fun _ => (hr.stays (.inl rfl)).2
    · exact hsteady.aside hr.kept hr.declared (mem_of_beside hcmem) ho (hr.beside hcmem)
  case templates =>
    intro c hc clause' template' placeholder' rendered' hdir
    rcases mem_replace hc with rfl | hcmem
    · rw [hr.after] at hdir ⊢
      obtain ⟨-, rfl, -, -⟩ := Directive.repetition.inj hdir
      obtain ⟨shape, hshape, hdrawn⟩ :=
        hr.kept.templates b List.mem_append_cons_self _ _ _ _ hr.directive
      obtain ⟨hot, hout⟩ := hr.stays (.inl rfl)
      exact ⟨shape, hshape, hsteady.draws List.mem_append_cons_self hot hout hdrawn⟩
    · have hot := Binding.template_mem_own hdir
      have hcbs : c ∈ front ++ b :: back := mem_of_beside hcmem
      obtain ⟨shape, hshape, hdrawn⟩ := hr.kept.templates c hcbs _ _ _ _ hdir
      exact ⟨shape, hshape, hsteady.draws hcbs hot (hr.beside hcmem hot) hdrawn⟩

/-- Other copies in the slot of a repetition are nothing to the other bindings. -/
theorem spares : Spares t₀ (front ++ b :: back) (front ++ b' :: back) b t t' where
  styles x hx _ := by rw [hr.steady.figure (hr.standing hx)]
  values x hx _ := by rw [hr.steady.figure (hr.standing hx)]
  copies c hc hne o ho shape hdrawn := by
    have hkind : b.kind = .repetition := by rw [Binding.kind, hr.directive]; rfl
    have hcmem : c ∈ front ∨ c ∈ back := by
      refine (mem_replace hc).resolve_left ?_
      rintro rfl
      exact hne hkind rfl
    exact hr.steady.draws hc ho (hr.beside hcmem ho) hdrawn
  heard x hx := HostTree.listenersOf_eq_of_content_eq (hr.steady.content x (hr.standing hx))
  listeners := hr.refilled.listeners

end Restocked

end ReactiveTemplate
