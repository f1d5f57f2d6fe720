import ReactiveTemplate.Proofs.Document.Forests

/-!
# Queries

A query walks through the document from its top and picks the elements that a selector means. The
walk goes by a stack; it is the recursion on the tree all the same.

* `Selector.parse_brackets`: when the name of an attribute in brackets is a selector.
* `HostTree.Holds.documentOrder`, `HostTree.Tree.preorder_eq_documentOrder`: the walk and the
  recursion.
* `HostTree.Picks`: nodes in document order, each once; `HostTree.Tree.withAttribute_picks` and
  `HostTree.Tree.queryAll_picks`: what queries find.
* `HostTree.carriers`: the elements of a document that carry an attribute.
* `HostTree.Tree.queryAll_attribute`: they are what a query by the attribute finds.
-/

namespace ReactiveTemplate

/-! ## Selectors of attributes -/

theorem Text.trimChars_brackets (cs : List Char) :
    trimChars ('[' :: (cs ++ [']'])) = '[' :: (cs ++ [']']) := by
  have hopen : isBlank '[' = false := by decide
  have hclose : isBlank ']' = false := by decide
  simp [trimChars, hopen, hclose]

/-- A name in brackets is the selector of an attribute, if it is a name for selectors. -/
theorem Selector.parse_brackets (name : String) :
    parse ("[" ++ name ++ "]") =
      if isName name.toList then .ok (.attribute name)
      else .error (.unsupportedSelector ("[" ++ name ++ "]")) := by
  have htext : ("[" ++ name ++ "]").toList = '[' :: (name.toList ++ [']']) := by simp
  have hclassify : classify ('[' :: (name.toList ++ [']'])) = (.attribute, name.toList) := by
    simp [classify]
  rw [parse, htext, Text.trimChars_brackets, hclassify, ← htext]
  simp only [String.ofList_toList]

namespace HostTree

variable {α : Type} {t : HostTree α} {b : Branch NodeId} {id top x : NodeId} {name : String}

/-! ## Document order -/

/-- The recursion on the tree meets the nodes of a subtree in order, if it goes deep enough. -/
theorem Holds.documentOrder (h : t.Holds b) :
    ∀ {depth : Nat}, b.labels.length ≤ depth → t.documentOrder depth b.label = b.labels := by
  induction h with
  | @node id bs hlive hchildren _ ih =>
    intro depth hdepth
    obtain ⟨n, hn⟩ := hlive
    obtain ⟨depth, rfl⟩ : ∃ d, depth = d + 1 :=
      Nat.exists_eq_succ_of_ne_zero fun hzero => by simp [hzero] at hdepth
    rw [Branch.label, HostTree.documentOrder, hn, Branch.labels_node]
    dsimp only
    rw [← children_of_node? hn, hchildren, List.flatMap_map]
    refine congrArg (id :: ·) (List.flatMap_congr fun c hc => ih c hc ?_)
    have hlt := Branch.length_labels_lt (b := id) hc
    omega

theorem Holds.documentOrder_size (hl : t.Linked) (h : t.Holds b) :
    t.documentOrder t.slots.size b.label = b.labels := h.documentOrder (h.length_le hl)

/-- The walk by a stack and the recursion on the tree meet the same nodes in the same order. -/
theorem Tree.preorder_eq_documentOrder (ht : t.Tree) (hid : t.Live id) :
    t.preorder id = t.documentOrder t.slots.size id := by
  obtain ⟨b, rfl, hb⟩ := exists_holds ht.linked ht.acyclic hid
  rw [hb.preorder ht.linked, hb.documentOrder_size ht.linked]

theorem Tree.mem_documentOrder (ht : t.Tree) (hid : t.Live id) :
    x ∈ t.documentOrder t.slots.size id ↔ t.Below id x := by
  rw [← ht.preorder_eq_documentOrder hid, ht.mem_preorder hid]

/-! ## Picks -/

/-- Some nodes below a node: in the order of the walk, and each of them once. -/
structure Picks (t : HostTree α) (top : NodeId) (wanted : NodeId → Prop) (ids : List NodeId) :
    Prop where
  ordered : ids.Sublist (t.preorder top)
  nodup : ids.Nodup
  mem_iff : ∀ x, x ∈ ids ↔ t.Below top x ∧ wanted x

theorem Tree.picks_filter (ht : t.Tree) (htop : t.Live top) (wanted : NodeId → Bool) :
    t.Picks top (fun x => wanted x = true) ((t.preorder top).filter wanted) where
  ordered := List.filter_sublist
  nodup := (ht.nodup_preorder htop).filter _
  mem_iff x := by rw [List.mem_filter, ht.mem_preorder htop]

/-- An element with an attribute. -/
def Carries (t : HostTree α) (name : String) (x : NodeId) : Prop :=
  ∃ n, t.node? x = some n ∧ n.isElement = true ∧ n.attributes.contains name = true

theorem Tree.withAttribute_picks (ht : t.Tree) (htop : t.Live top) (name : String) :
    ∃ ids, t.withAttribute top name = .ok ids ∧ t.Picks top (t.Carries name) ids := by
  have hpicks := ht.picks_filter htop fun x =>
    (t.node? x).elim false fun node => node.isElement && node.attributes.contains name
  refine ⟨_, ?_, hpicks.ordered, hpicks.nodup, fun x => ?_⟩
  · obtain ⟨n, hn⟩ := htop
    rw [withAttribute, get_of_node? hn]
    rfl
  · rw [hpicks.mem_iff, Carries]
    refine and_congr_right fun _ => ?_
    cases t.node? x <;> simp

/-- A node that a selector means, other than the document node. -/
def Selected (t : HostTree α) (selector : Selector) (x : NodeId) : Prop :=
  x ≠ root ∧ ∃ n, t.node? x = some n ∧ selector.selects n = true

theorem Tree.queryAll_picks (ht : t.Tree) {text : String} {selector : Selector}
    (hparse : Selector.parse text = .ok selector) :
    ∃ ids, t.queryAll text = .ok ids ∧ t.Picks root (t.Selected selector) ids := by
  have hpicks := ht.picks_filter ht.linked.rooted fun x =>
    decide (x ≠ root) && (t.node? x).elim false selector.selects
  refine ⟨_, ?_, hpicks.ordered, hpicks.nodup, fun x => ?_⟩
  · rw [queryAll, hparse]
    rfl
  · rw [hpicks.mem_iff, Selected]
    refine and_congr_right fun _ => ?_
    cases t.node? x <;> simp

/-! ## Elements with an attribute -/

/-- The elements of a document that carry an attribute, in document order. -/
def carriers (t : HostTree α) (name : String) : List NodeId :=
  (t.documentOrder t.slots.size root).filter fun id =>
    decide (id ≠ root) && ((t.figure id).source? name).isSome

theorem Tree.mem_carriers (ht : t.Tree) :
    x ∈ t.carriers name ↔ t.Below root x ∧ x ≠ root ∧ ((t.figure x).source? name).isSome := by
  rw [carriers, List.mem_filter, ht.mem_documentOrder ht.linked.rooted, Bool.and_eq_true,
    decide_eq_true_eq]

/-- The selector of an attribute means the elements that carry it. -/
theorem selects_attribute (hx : t.Live x) (name : String) :
    (t.node? x).elim false (Selector.attribute name).selects = ((t.figure x).source? name).isSome := by
  obtain ⟨n, hn⟩ := hx
  have hfigure : t.figure x = n.figure := figure_of_node? hn
  rw [hn, Option.elim_some, hfigure]
  cases hkind : n.kind <;>
    simp [Selector.selects, Figure.source?, Node.figure, Fields.contains, hkind]

/-- A query by an attribute finds the elements that carry it. -/
theorem Tree.queryAll_attribute (ht : t.Tree) {selector : String}
    (hparse : Selector.parse selector = .ok (.attribute name)) :
    t.queryAll selector = .ok (t.carriers name) := by
  have hrooted := ht.linked.rooted
  rw [HostTree.queryAll, hparse]
  change Except.ok _ = _
  rw [carriers, ht.preorder_eq_documentOrder hrooted]
  refine congrArg Except.ok (List.filter_congr fun x hx => ?_)
  have hbelow := (ht.mem_documentOrder hrooted).1 hx
  rw [selects_attribute (hbelow.live ht.linked hrooted)]

end HostTree

end ReactiveTemplate
