import ReactiveTemplate.Proofs.Document.Counts
import ReactiveTemplate.Proofs.Document.Queries

/-!
# The loops of a walk

A host walks through a document by two loops: down from a node by a stack, and up from a node by the
links to the parents. Neither counts its steps. In a tree both end: the first meets every node below
its top once, each before the subtrees of its children in order, and the second ends at the document
node exactly if the first meets its start on the way down from there.

* `Ends`: a loop ends at a state, and at no other (`Ends.unique`).
* `HostTree.walkOn`, `HostTree.Tree.walk_ends`: the loop down, by induction on the subtree.
* `HostTree.climbOn`, `HostTree.Tree.climb_ends`: the loop up, by the growing weight of the nodes.
* `HostTree.OrdersSubtrees`: document order by recursion, which only one order satisfies.
* `HostTree.Tree.walks_in_document_order`: both loops, and what queries pick on the way.
-/

namespace ReactiveTemplate

/-! ## Loops -/

section Loops

variable {σ : Type} {next? : σ → Option σ} {first second last last' : σ}

/-- A loop that goes from state to state comes to a state from which it does not go on. -/
structure Ends (next? : σ → Option σ) (first last : σ) : Prop where
  reaches : Relation.ReflTransGen (fun s s' => next? s = some s') first last
  stops : next? last = none

theorem Ends.here (h : next? last = none) : Ends next? last last := ⟨.refl, h⟩

theorem Ends.step (hstep : next? first = some second) (h : Ends next? second last) :
    Ends next? first last := ⟨.head hstep h.reaches, h.stops⟩

theorem eq_of_reaches_of_stops (hstop : next? first = none)
    (h : Relation.ReflTransGen (fun s s' => next? s = some s') first last) : first = last := by
  rcases Relation.ReflTransGen.cases_head h with heq | ⟨second, hstep, -⟩
  · exact heq
  · rw [hstop] at hstep
    cases hstep

/-- A loop has one end. -/
theorem Ends.unique (h : Ends next? first last) (h' : Ends next? first last') : last = last' := by
  have hdet : Relator.RightUnique fun s s' => next? s = some s' := fun _ _ _ hb hc =>
    Option.some.inj (hb.symm.trans hc)
  rcases Relation.ReflTransGen.total_of_right_unique hdet h.reaches h'.reaches with hto | hto
  · exact eq_of_reaches_of_stops h.stops hto
  · exact (eq_of_reaches_of_stops h'.stops hto).symm

end Loops

namespace HostTree

variable {α : Type} {t : HostTree α} {b : Branch NodeId} {top n p c x : NodeId}

/-! ## Down -/

/-- The nodes met so far, and the stack of those to be met next. -/
structure Walk where
  met : List NodeId
  stack : List NodeId

/-- One turn of the loop down: the next node is met, and its children are put onto the stack. A name
    that means no node is passed over. -/
def walkOn (t : HostTree α) : Walk → Option Walk
  | ⟨_, []⟩ => none
  | ⟨met, id :: stack⟩ =>
    match t.node? id with
    | none => some ⟨met, stack⟩
    | some node => some ⟨met ++ [id], node.children ++ stack⟩

/-- The walk comes from a state to another. -/
abbrev Walks (t : HostTree α) : Walk → Walk → Prop :=
  Relation.ReflTransGen fun s s' => t.walkOn s = some s'

/-- If each of some subtrees is met in turn, so are all of them. -/
theorem walks_flatMap {bs : List (Branch NodeId)}
    (h : ∀ b ∈ bs, ∀ met stack, t.Walks ⟨met, b.label :: stack⟩ ⟨met ++ b.labels, stack⟩) :
    ∀ met stack, t.Walks ⟨met, bs.map Branch.label ++ stack⟩ ⟨met ++ bs.flatMap Branch.labels, stack⟩ := by
  induction bs with
  | nil =>
    intro met stack
    rw [List.map_nil, List.flatMap_nil, List.append_nil]
    exact .refl
  | cons b bs ih =>
    intro met stack
    have hrest := ih (fun c hc => h c (List.mem_cons_of_mem _ hc)) (met ++ b.labels) stack
    rw [List.flatMap_cons, ← List.append_assoc]
    exact (h b List.mem_cons_self met _).trans hrest

/-- A subtree on top of the stack is met as a whole before the rest of the stack. -/
theorem Holds.walks (h : t.Holds b) :
    ∀ met stack, t.Walks ⟨met, b.label :: stack⟩ ⟨met ++ b.labels, stack⟩ := by
  induction h with
  | @node id bs hlive hchildren _ ih =>
    intro met stack
    obtain ⟨n, hn⟩ := hlive
    have hturn : t.walkOn ⟨met, id :: stack⟩ =
        some ⟨met ++ [id], bs.map Branch.label ++ stack⟩ := by
      rw [walkOn, hn, ← hchildren, children_of_node? hn]
    have hmet : met ++ Branch.labels (.node id bs) = (met ++ [id]) ++ bs.flatMap Branch.labels := by
      rw [Branch.labels_node, List.append_cons]
    rw [hmet]
    exact .head hturn (walks_flatMap ih _ stack)

/-- The loop down ends with an empty stack, when it has met what the bounded walk meets. -/
theorem Tree.walk_ends (ht : t.Tree) (htop : t.Live top) :
    Ends t.walkOn ⟨[], [top]⟩ ⟨t.preorder top, []⟩ := by
  obtain ⟨b, rfl, hb⟩ := exists_holds ht.linked ht.acyclic htop
  rw [hb.preorder ht.linked]
  exact ⟨hb.walks [] [], rfl⟩

/-! ## Document order -/

/-- An order in which a node comes first, and then the subtrees of its children in order. -/
def OrdersSubtrees (t : HostTree α) (order : NodeId → List NodeId) : Prop :=
  ∀ id, t.Live id → order id = id :: (t.children id).flatMap order

theorem Holds.order (h : t.Holds b) {order : NodeId → List NodeId} (ho : t.OrdersSubtrees order) :
    order b.label = b.labels := by
  induction h with
  | @node id bs hlive hchildren _ ih =>
    rw [Branch.label, ho id hlive, hchildren, List.flatMap_map, Branch.labels_node]
    exact congrArg (id :: ·) (List.flatMap_congr ih)

/-- The walk is such an order. -/
theorem Tree.ordersSubtrees_preorder (ht : t.Tree) : t.OrdersSubtrees t.preorder := by
  intro id hlive
  obtain ⟨b, rfl, hb⟩ := exists_holds ht.linked ht.acyclic hlive
  rw [hb.preorder ht.linked]
  cases hb with
  | @node id bs _ hchildren hbs =>
    rw [Branch.label, hchildren, List.flatMap_map, Branch.labels_node]
    refine congrArg (id :: ·) (List.flatMap_congr fun c hc => ?_)
    exact ((hbs c hc).preorder ht.linked).symm

/-- In a tree there is only one. -/
theorem Tree.order_eq_preorder (ht : t.Tree) {order : NodeId → List NodeId}
    (ho : t.OrdersSubtrees order) (htop : t.Live top) : order top = t.preorder top := by
  obtain ⟨b, rfl, hb⟩ := exists_holds ht.linked ht.acyclic htop
  rw [hb.order ho, hb.preorder ht.linked]

/-! ## Up -/

/-- One turn of the loop up: to the parent, unless there is none or the document node is reached. -/
def climbOn (t : HostTree α) : Option NodeId → Option (Option NodeId)
  | none => none
  | some id => if id = root then none else some (t.parent? id)

theorem climbOn_of_ne (t : HostTree α) (hne : n ≠ root) : t.climbOn (some n) = some (t.parent? n) :=
  if_neg hne

/-- A node has more nodes below it than its children have. -/
theorem Tree.weight_lt (ht : t.Tree) (hparent : t.parent? c = some p) : t.weight c < t.weight p := by
  obtain ⟨b, rfl, hb⟩ := exists_holds ht.linked ht.acyclic (ht.live_parent hparent)
  rw [weight, weight, hb.preorder ht.linked]
  have hmem := ht.listed hparent
  cases hb with
  | @node id bs _ hchildren hbs =>
    rw [Branch.label, hchildren] at hmem
    obtain ⟨d, hd, rfl⟩ := List.mem_map.1 hmem
    rw [(hbs d hd).preorder ht.linked]
    exact Branch.length_labels_lt hd

theorem Tree.weight_le_size (ht : t.Tree) (hn : t.Live n) : t.weight n ≤ t.slots.size := by
  obtain ⟨b, rfl, hb⟩ := exists_holds ht.linked ht.acyclic hn
  rw [weight, hb.preorder ht.linked]
  exact hb.length_le ht.linked

/-- The loop up ends, at the document node or past a node without a parent. Each turn leaves fewer
    nodes that are not below, so the bound on the turns is never reached. -/
theorem Tree.climb_ends_within (ht : t.Tree) {fuel : Nat} :
    ∀ {n : NodeId}, t.slots.size ≤ t.weight n + fuel →
      Ends t.climbOn (some n) (if t.isAttachedWithin fuel n then some root else none) := by
  induction fuel with
  | zero =>
    intro n hroom
    rw [isAttachedWithin]
    by_cases hne : n = root
    · rw [hne, decide_eq_true rfl, if_pos rfl]
      exact .here rfl
    · rw [decide_eq_false hne, if_neg Bool.false_ne_true]
      cases hparent : t.parent? n with
      | none => exact .step ((t.climbOn_of_ne hne).trans (congrArg some hparent)) (.here rfl)
      | some p =>
        have hlt := ht.weight_lt hparent
        have hle := ht.weight_le_size (ht.live_parent hparent)
        omega
  | succ fuel ih =>
    intro n hroom
    rw [isAttachedWithin]
    by_cases hne : n = root
    · rw [hne, if_pos rfl, if_pos rfl]
      exact .here rfl
    · rw [if_neg hne]
      cases hparent : t.parent? n with
      | none => exact .step ((t.climbOn_of_ne hne).trans (congrArg some hparent)) (.here rfl)
      | some p =>
        have hlt := ht.weight_lt hparent
        refine .step ((t.climbOn_of_ne hne).trans (congrArg some hparent)) (ih ?_)
        omega

theorem Tree.climb_ends (ht : t.Tree) (n : NodeId) :
    Ends t.climbOn (some n) (if t.isAttached n then some root else none) :=
  ht.climb_ends_within (Nat.le_add_left _ _)

/-- Where a climb comes to, what it began at is below. -/
theorem Tree.below_of_climbs (ht : t.Tree)
    (h : Relation.ReflTransGen (fun s s' => t.climbOn s = some s') (some n) (some x)) :
    t.Below x n := by
  generalize hs : some x = s at h
  induction h generalizing x with
  | refl => exact Option.some.inj hs ▸ Below.refl t _
  | @tail s s' _ hturn ih =>
    cases s with
    | none => cases hturn
    | some y =>
      rw [climbOn] at hturn
      split at hturn
      · cases hturn
      · rw [← hs] at hturn
        exact .head (ht.listed (Option.some.inj hturn)) (ih rfl)

/-- From what is below the document node, a climb comes to it. -/
theorem Tree.climbs_of_below (ht : t.Tree) (h : t.Below root n) :
    Ends t.climbOn (some n) (some root) := by
  induction h with
  | refl => exact .here rfl
  | @tail p c _ hc ih =>
    have hparent := ht.linked.child hc
    have hne : c ≠ root := by
      rintro rfl
      rw [ht.linked.top] at hparent
      cases hparent
    exact .step ((t.climbOn_of_ne hne).trans (congrArg some hparent)) ih

theorem Tree.isAttached_iff (ht : t.Tree) : t.isAttached n = true ↔ t.Below root n := by
  have hends := ht.climb_ends n
  constructor
  · intro hattached
    rw [hattached, if_pos rfl] at hends
    exact ht.below_of_climbs hends.reaches
  · intro hbelow
    by_contra hdetached
    rw [if_neg hdetached] at hends
    cases hends.unique (ht.climbs_of_below hbelow)

/-- Walks through a document that is a tree. The loop down from a node ends, and has then met every
    node below it once, in the one order that the recursion on the tree gives. Queries pick their
    elements in this order, each once. The loop up from a node ends, and a node is attached exactly
    if the loop down from the document node meets it. -/
theorem Tree.walks_in_document_order (ht : t.Tree) :
    (∀ top, t.Live top →
      Ends t.walkOn ⟨[], [top]⟩ ⟨t.preorder top, []⟩ ∧
      (∀ order, t.OrdersSubtrees order → order top = t.preorder top) ∧
      (t.preorder top).Nodup ∧ ∀ x, x ∈ t.preorder top ↔ t.Below top x) ∧
    t.OrdersSubtrees t.preorder ∧
    (∀ top name, t.Live top →
      ∃ ids, t.withAttribute top name = .ok ids ∧ t.Picks top (t.Carries name) ids) ∧
    (∀ text selector, Selector.parse text = .ok selector →
      ∃ ids, t.queryAll text = .ok ids ∧ t.Picks root (t.Selected selector) ids) ∧
    ∀ n, Ends t.climbOn (some n) (if t.isAttached n then some root else none) ∧
      (t.isAttached n = true ↔ n ∈ t.preorder root) := by
  refine ⟨fun top htop => ⟨ht.walk_ends htop, fun order ho => ht.order_eq_preorder ho htop,
    ht.nodup_preorder htop, fun x => ht.mem_preorder htop⟩, ht.ordersSubtrees_preorder,
    fun top name htop => ht.withAttribute_picks htop name,
    fun text selector hparse => ht.queryAll_picks hparse, fun n => ⟨ht.climb_ends n, ?_⟩⟩
  rw [ht.isAttached_iff, ht.mem_preorder ht.linked.rooted]

/-- A list whose second item was put before the first, an element that was taken out, and a
    paragraph. -/
def sortedHistory : List (HostOperation Unit) :=
  let list : NodeId := ⟨1, 0⟩
  let item : NodeId := ⟨3, 0⟩
  [.appendElement root "ul" [], .appendElement list "li" [("class", "first")],
    .appendElement list "li" [("class", "second")], .insertBefore list item (some ⟨2, 0⟩),
    .appendText item "b", .appendElement ⟨2, 0⟩ "em" [("class", "gone")],
    .appendElement root "p" [], .remove ⟨5, 0⟩]

theorem sortedHistory_permits : (empty : HostTree Unit).RunPermits sortedHistory := by
  refine ⟨⟨fun p hp => ?_, nofun⟩, ⟨fun p hp => ?_, nofun⟩, ⟨fun p hp => ?_, nofun⟩,
    ⟨nofun, fun _ p c hput => ?put⟩, ⟨fun p hp => ?_, nofun⟩, ⟨fun p hp => ?_, nofun⟩,
    ⟨fun p hp => ?_, nofun⟩, ⟨nofun, nofun⟩, trivial⟩
  case put =>
    obtain ⟨rfl, rfl⟩ := Prod.mk.inj (Option.some.inj hput)
    exact ⟨by decide, not_below_of_children_nil rfl (by decide)⟩
  all_goals exact Option.some.inj hp ▸ ⟨_, rfl⟩

/-- The items are found in the order in which they stand now, and the element that was taken out is
    neither met nor attached. -/
theorem sortedHistory_walks :
    let t := (empty : HostTree Unit).run sortedHistory
    let order : List NodeId := [root, ⟨1, 0⟩, ⟨3, 0⟩, ⟨4, 0⟩, ⟨2, 0⟩, ⟨6, 0⟩]
    let items : List NodeId := [⟨3, 0⟩, ⟨2, 0⟩]
    t.Tree ∧ Ends t.walkOn ⟨[], [root]⟩ ⟨order, []⟩ ∧
      t.withAttribute ⟨1, 0⟩ "class" = .ok items ∧ t.Picks ⟨1, 0⟩ (t.Carries "class") items ∧
      t.queryAll " li " = .ok items ∧ t.Picks root (t.Selected (.tag "li")) items ∧
      t.Live ⟨5, 0⟩ ∧ ⟨5, 0⟩ ∉ order ∧ Ends t.climbOn (some ⟨5, 0⟩) none ∧
      Ends t.climbOn (some ⟨4, 0⟩) (some root) := by
  intro t order items
  have ht : t.Tree := (sound_empty.run sortedHistory_permits).tree
  have hlive : t.Live ⟨1, 0⟩ := ⟨_, rfl⟩
  have horder : t.preorder root = order := by decide +kernel
  have hattribute : t.withAttribute ⟨1, 0⟩ "class" = .ok items := by decide +kernel
  have hquery : t.queryAll " li " = .ok items := by decide +kernel
  obtain ⟨hdown, -, hwith, hall, hup⟩ := ht.walks_in_document_order
  have hends := (hdown root ht.linked.rooted).1
  rw [horder] at hends
  obtain ⟨found, hfound, hpicks⟩ := hwith ⟨1, 0⟩ "class" hlive
  obtain rfl := Except.ok.inj (hfound.symm.trans hattribute)
  obtain ⟨found, hfound, hselected⟩ := hall " li " (.tag "li") (by decide +kernel)
  obtain rfl := Except.ok.inj (hfound.symm.trans hquery)
  have hdetached : t.isAttached ⟨5, 0⟩ = false := by decide +kernel
  have hattached : t.isAttached ⟨4, 0⟩ = true := by decide +kernel
  have houtside := (hup ⟨5, 0⟩).1
  have hinside := (hup ⟨4, 0⟩).1
  rw [hdetached, if_neg Bool.false_ne_true] at houtside
  rw [hattached, if_pos rfl] at hinside
  exact ⟨ht, hends, hattribute, hpicks, hquery, hselected, ⟨_, rfl⟩, by decide, houtside, hinside⟩

end HostTree

end ReactiveTemplate
