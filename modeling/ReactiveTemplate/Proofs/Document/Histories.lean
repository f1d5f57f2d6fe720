import ReactiveTemplate.Proofs.Document.Operations

/-!
# Histories of documents

A history is a list of operations that hosts ask for, one after the other, beginning with a
document without content. Some of them may fail, also after a part of their work.

* `HostOperation`, `HostTree.perform`, `HostTree.run`: operations and histories.
* `HostTree.Permits`: nodes are added below nodes that are there, none is put below itself,
  and the document node stays where it is.
* `HostTree.Forest`: the links of a document and its account of empty slots.
* `HostTree.history_leaves_forest`: every permitted history leaves a forest.
-/

namespace ReactiveTemplate

/-- What a host can ask of a document. Discarding a node is destroying it. -/
inductive HostOperation (α : Type) where
  | appendElement (parent : NodeId) (tag : String) (attributes : List (String × String))
  | appendText (parent : NodeId) (text : String)
  | createPlaceholder (label : String)
  | cloneNode (id : NodeId)
  | insertBefore (parent child : NodeId) (reference : Option NodeId)
  | insertAfter (anchor child : NodeId)
  | remove (id : NodeId)
  | discard (id : NodeId)
  | destroy (id : NodeId)
  | replace (old new : NodeId)
  | setText (id : NodeId) (text : String)
  | setAttribute (id : NodeId) (name value : String)
  | setStyle (id : NodeId) (name value : String)
  | setValue (id : NodeId) (value : String)
  | addListener (id : NodeId) (event : String) (action : α)
  | removeListener (id : NodeId) (listener : Nat)

namespace HostTree

variable {α : Type} {t t' : HostTree α} {id p c : NodeId}

/-- The document after an operation that changes nothing when it fails. -/
def settle (t : HostTree α) : Except HostError (HostTree α) → Except HostError Unit × HostTree α
  | .error e => (.error e, t)
  | .ok t' => (.ok (), t')

/-- The outcome of an operation and the document after it. -/
def perform (t : HostTree α) : HostOperation α → Except HostError Unit × HostTree α
  | .appendElement parent tag attributes => (.ok (), (t.appendElement parent tag attributes).2)
  | .appendText parent text => (.ok (), (t.appendText parent text).2)
  | .createPlaceholder label => (.ok (), (t.createPlaceholder label).2)
  | .cloneNode id => ((t.cloneNode id).1.map fun _ => (), (t.cloneNode id).2)
  | .insertBefore parent child reference => t.insertBefore parent child reference
  | .insertAfter anchor child => t.insertAfter anchor child
  | .remove id => t.settle (t.remove id)
  | .discard id => t.settle (t.destroy id)
  | .destroy id => t.settle (t.destroy id)
  | .replace old new => t.replace old new
  | .setText id text => t.settle (t.setText id text)
  | .setAttribute id name value => t.settle (t.setAttribute id name value)
  | .setStyle id name value => t.settle (t.setStyle id name value)
  | .setValue id value => t.settle (t.setValue id value)
  | .addListener id event action => t.settle ((t.addListener id event action).map Prod.snd)
  | .removeListener id listener => t.settle (t.removeListener id listener)

/-- The document after a history. -/
def run (t : HostTree α) (ops : List (HostOperation α)) : HostTree α :=
  ops.foldl (fun t op => (t.perform op).2) t

/-- The node below which an operation adds a new one. -/
def grown? : HostOperation α → Option NodeId
  | .appendElement parent _ _ => some parent
  | .appendText parent _ => some parent
  | _ => none

/-- The parent and the node that an operation puts below it. -/
def puts? (t : HostTree α) : HostOperation α → Option (NodeId × NodeId)
  | .insertBefore parent child _ => some (parent, child)
  | .insertAfter anchor child => (t.parent? anchor).map (·, child)
  | .replace old new => (t.parent? old).map (·, new)
  | _ => none

/-- New nodes are added below nodes that are there. A node that an operation moves is not the
    document node, and is not put below itself. -/
structure Permits (t : HostTree α) (op : HostOperation α) : Prop where
  grows : ∀ p, grown? op = some p → t.Live p
  puts : (t.perform op).1 = .ok () → ∀ p c, t.puts? op = some (p, c) → c ≠ root ∧ ¬ t.Below c p

/-- Each operation of a history is permitted when its turn comes. -/
def RunPermits : HostTree α → List (HostOperation α) → Prop
  | _, [] => True
  | t, op :: ops => t.Permits op ∧ (t.perform op).2.RunPermits ops

/-! ## One operation -/

theorem Sound.settle (h : t.Sound) {outcome : Except HostError (HostTree α)}
    (hok : ∀ t', outcome = .ok t' → t'.Sound) : (t.settle outcome).2.Sound := by
  cases outcome with
  | error e => exact h
  | ok t' => exact hok t' rfl

theorem Sound.update (h : t.Sound) {change : Node α → Node α} (hupdate : t.update id change = .ok t')
    (hparent : ∀ n, (change n).parent = n.parent)
    (hchildren : ∀ n, (change n).children = n.children) : t'.Sound := by
  rw [HostTree.update] at hupdate
  cases hget : t.get id with
  | error e =>
    rw [hget] at hupdate
    cases hupdate
  | ok n =>
    rw [hget] at hupdate
    exact Except.ok.inj hupdate ▸ h.touch id hparent hchildren

theorem Sound.addListener (h : t.Sound) {event : String} {action : α} {number : Nat}
    (hadd : t.addListener id event action = .ok (number, t')) : t'.Sound := by
  rw [HostTree.addListener] at hadd
  cases hupdate : t.update id fun n =>
      { n with listeners := n.listeners ++ [⟨t.nextListener, event, action⟩] } with
  | error e =>
    simp only [hupdate, bind, Except.bind] at hadd
    cases hadd
  | ok t₁ =>
    simp only [hupdate, bind, Except.bind] at hadd
    have h₁ := h.update hupdate (fun _ => rfl) fun _ => rfl
    rw [← (Prod.mk.inj (Except.ok.inj hadd)).2]
    exact ⟨⟨h₁.tree.linked.number _, h₁.tree.listed, h₁.tree.acyclic⟩, h₁.complete⟩

theorem Sound.removeListener (h : t.Sound) {listener : Nat}
    (hremove : t.removeListener id listener = .ok t') : t'.Sound := by
  rw [HostTree.removeListener] at hremove
  cases hget : t.get id with
  | error e =>
    rw [hget] at hremove
    cases hremove
  | ok n =>
    simp only [hget, bind, Except.bind] at hremove
    split at hremove
    · exact Except.ok.inj hremove ▸ h.touch id (fun _ => rfl) fun _ => rfl
    · cases hremove

/-- A permitted operation leaves a sound document sound. -/
theorem Sound.perform (h : t.Sound) {op : HostOperation α} (hop : t.Permits op) :
    (t.perform op).2.Sound := by
  cases op with
  | appendElement parent tag attributes => exact h.append (hop.grows parent rfl) rfl
  | appendText parent text => exact h.append (hop.grows parent rfl) rfl
  | createPlaceholder label => exact h.create rfl rfl
  | cloneNode id => exact h.cloneNode
  | insertBefore parent child reference =>
    exact h.insertBefore fun hok => hop.puts hok parent child rfl
  | insertAfter anchor child =>
    exact h.insertAfter fun hok p hp => hop.puts hok p child (by rw [puts?, hp]; rfl)
  | remove id => exact h.settle fun t' ht' => h.detach ht'
  | discard id => exact h.settle fun t' ht' => h.destroy ht'
  | destroy id => exact h.settle fun t' ht' => h.destroy ht'
  | replace old new =>
    exact h.replace fun hok p hp => hop.puts hok p new (by rw [puts?, hp]; rfl)
  | setText id text => exact h.settle fun t' ht' => h.setText ht'
  | setAttribute id name value =>
    exact h.settle fun t' ht' => h.update ht' (fun _ => rfl) fun _ => rfl
  | setStyle id name value =>
    exact h.settle fun t' ht' => h.update ht' (fun _ => rfl) fun _ => rfl
  | setValue id value =>
    exact h.settle fun t' ht' => h.update ht' (fun _ => rfl) fun _ => rfl
  | addListener id event action =>
    refine h.settle fun t' ht' => ?_
    cases hadd : t.addListener id event action with
    | error e =>
      rw [hadd] at ht'
      cases ht'
    | ok added =>
      rw [hadd] at ht'
      exact Except.ok.inj ht' ▸ h.addListener hadd
  | removeListener id listener => exact h.settle fun t' ht' => h.removeListener ht'

/-! ## Whole histories -/

/-- The document node alone. -/
theorem sound_empty : (empty : HostTree α).Sound := by
  have hnode : ∀ id, (empty : HostTree α).node? id =
      if id = root then some (.blank .document) else none := by
    rintro ⟨index, generation⟩
    cases index with
    | zero =>
      by_cases hg : generation = 0
      · rw [hg]
        rfl
      · simp [node?, empty, root, hg, Ne.symm hg]
    | succ index => simp [node?, empty, root]
  have hchildren : ∀ id, (empty : HostTree α).children id = [] := by
    intro id
    rw [children, hnode]
    split <;> rfl
  have hparent : ∀ id, (empty : HostTree α).parent? id = none := by
    intro id
    rw [parent?, hnode]
    split <;> rfl
  refine ⟨⟨⟨⟨_, hnode root⟩, hparent root, ⟨fun _ h => absurd h List.not_mem_nil, List.nodup_nil⟩,
    fun hc => ?_, fun p => ?_⟩, fun hp => ?_, ⟨fun p => ⟨p, fun c hc => ?_⟩⟩⟩,
    fun index generation hslot => ?_⟩
  · rw [hchildren] at hc
    cases hc
  · rw [hchildren]
    exact List.nodup_nil
  · rw [hparent] at hp
    cases hp
  · rw [hchildren] at hc
    cases hc
  · cases index <;> simp [empty] at hslot

theorem Sound.run {ops : List (HostOperation α)} :
    ∀ {t : HostTree α}, t.Sound → t.RunPermits ops → (t.run ops).Sound := by
  induction ops with
  | nil => exact fun h _ => h
  | cons op ops ih => exact fun h hops => ih (h.perform hops.1) hops.2

/-! ## Forests -/

/-- The names of all nodes of a document. -/
def ids (t : HostTree α) : List NodeId :=
  (List.range t.slots.size).filterMap fun index =>
    t.slots[index]?.bind fun slot => slot.node.map fun _ => ⟨index, slot.generation⟩

/-- A node is a child of its parent, once, and of no other node; parents and children are there;
    each empty slot is free, once, and no other one is; there are no cycles; the document node is
    there, without a parent. -/
structure Forest (t : HostTree α) : Prop where
  child_iff : ∀ p c, c ∈ t.children p ↔ t.parent? c = some p
  nodup_children : ∀ p, (t.children p).Nodup
  live_parent : ∀ p c, t.parent? c = some p → t.Live p
  live_child : ∀ p c, c ∈ t.children p → t.Live c
  nodup_free : t.free.Nodup
  free_iff : ∀ index, index ∈ t.free ↔ ∃ generation, t.slots[index]? = some ⟨generation, none⟩
  nodup_ids : t.ids.Nodup
  mem_ids_iff : ∀ id, id ∈ t.ids ↔ t.Live id
  liveCount_eq : t.liveCount = t.ids.length
  no_cycle : ∀ id, ¬ Relation.TransGen (fun c p => t.parent? c = some p) id id
  root_live : t.Live root
  root_parent : t.parent? root = none

theorem mem_ids_iff : id ∈ t.ids ↔ t.Live id := by
  obtain ⟨i, g⟩ := id
  rw [ids, List.mem_filterMap]
  constructor
  · rintro ⟨index, -, h⟩
    obtain ⟨slot, hslot, h⟩ := Option.bind_eq_some_iff.1 h
    obtain ⟨n, hn, h⟩ := Option.map_eq_some_iff.1 h
    obtain ⟨rfl, rfl⟩ := NodeId.mk.inj h
    exact ⟨n, by simp [node?, hslot, hn]⟩
  · rintro ⟨n, hn⟩
    refine ⟨i, List.mem_range.2 (index_lt_of_live ⟨n, hn⟩), ?_⟩
    rw [node?] at hn
    split at hn
    · next slot hslot =>
      split at hn
      · next hg =>
        rw [hslot, Option.bind_some, hn, Option.map_some, hg]
      · cases hn
    · cases hn

theorem nodup_ids (t : HostTree α) : t.ids.Nodup := by
  refine List.Nodup.filterMap (fun i j id hi hj => ?_) List.nodup_range
  have hindex : ∀ {k : Nat}, id ∈ (t.slots[k]?.bind fun slot =>
      slot.node.map fun _ => (⟨k, slot.generation⟩ : NodeId)) → id.index = k := by
    intro k hk
    obtain ⟨slot, -, hk⟩ := Option.bind_eq_some_iff.1 hk
    obtain ⟨n, -, hk⟩ := Option.map_eq_some_iff.1 hk
    rw [← hk]
  rw [← hindex hi, hindex hj]

theorem Sound.free_iff (h : t.Sound) (index : Nat) :
    index ∈ t.free ↔ ∃ generation, t.slots[index]? = some ⟨generation, none⟩ :=
  ⟨h.tree.linked.free.vacant index, fun ⟨generation, hslot⟩ => h.complete index generation hslot⟩

/-- Each slot is free or has a node. -/
theorem Sound.liveCount_eq (h : t.Sound) : t.liveCount = t.ids.length := by
  have hids : t.ids.length = ((List.range t.slots.size).filter (· ∉ t.free)).length := by
    rw [ids, List.length_filterMap_eq_countP, List.countP_eq_length_filter]
    congr 1
    refine List.filter_congr fun index hindex => ?_
    obtain ⟨⟨generation, node⟩, hslot⟩ :
        ∃ slot, t.slots[index]? = some slot := ⟨_, Array.getElem?_eq_getElem (List.mem_range.1 hindex)⟩
    have hfree := h.free_iff index
    rw [hslot] at hfree ⊢
    cases node <;> simp [hfree]
  have hfree : ((List.range t.slots.size).filter (· ∈ t.free)).length = t.free.length := by
    refine List.Perm.length_eq ((List.perm_ext_iff_of_nodup (List.nodup_range.filter _)
      h.tree.linked.free.nodup).2 fun index => ?_)
    rw [List.mem_filter, decide_eq_true_iff, List.mem_range, and_iff_right_iff_imp]
    intro hindex
    obtain ⟨generation, hslot⟩ := h.tree.linked.free.vacant index hindex
    exact (Array.getElem?_eq_some_iff.1 hslot).1
  have hall := List.length_eq_length_filter_add (l := List.range t.slots.size) (· ∈ t.free)
  rw [List.length_range] at hall
  simp only [← decide_not] at hall
  rw [liveCount]
  omega

theorem Sound.forest (h : t.Sound) : t.Forest where
  child_iff _ _ := h.tree.mem_children_iff
  nodup_children := h.tree.linked.nodup
  live_parent _ _ := h.tree.live_parent
  live_child _ _ := h.tree.linked.live
  nodup_free := h.tree.linked.free.nodup
  free_iff := h.free_iff
  nodup_ids := t.nodup_ids
  mem_ids_iff _ := mem_ids_iff
  liveCount_eq := h.liveCount_eq
  no_cycle id hcycle := by
    have hrel : (fun c p => t.parent? c = some p) = fun c p => c ∈ t.children p := by
      funext c p
      exact propext h.tree.mem_children_iff.symm
    rw [hrel] at hcycle
    exact (WellFounded.transGen h.tree.acyclic).asymmetric id id hcycle hcycle
  root_live := h.tree.linked.rooted
  root_parent := h.tree.linked.top

/-- Every history of permitted operations, whether they succeed or fail, leaves a forest. -/
theorem history_leaves_forest (ops : List (HostOperation α))
    (hops : (empty : HostTree α).RunPermits ops) : ((empty : HostTree α).run ops).Forest :=
  (sound_empty.run hops).forest

/-! ## A history -/

/-- A node without children has no other one below it. -/
theorem not_below_of_children_nil (hchildren : t.children c = []) (hne : p ≠ c) : ¬ t.Below c p := by
  intro hbelow
  rcases Relation.ReflTransGen.cases_head hbelow with heq | ⟨x, hx, -⟩
  · exact hne heq.symm
  · rw [hchildren] at hx
    cases hx

/-- A list whose placeholder is put below it, a failure that takes the placeholder out again, and
    new nodes in the slots of the destroyed list. -/
def listHistory : List (HostOperation Unit) :=
  let list : NodeId := ⟨1, 0⟩
  let gap : NodeId := ⟨2, 0⟩
  [.appendElement root "ul" [], .createPlaceholder "gap", .insertBefore list gap none,
    .insertBefore root gap (some gap), .destroy list, .discard list, .appendText root "again"]

theorem listHistory_permits : (empty : HostTree Unit).RunPermits listHistory := by
  refine ⟨⟨fun p hp => ?_, nofun⟩, ⟨nofun, nofun⟩, ⟨nofun, fun _ p c hput => ?_⟩,
    ⟨nofun, nofun⟩, ⟨nofun, nofun⟩, ⟨nofun, nofun⟩, ⟨fun p hp => ?_, nofun⟩, trivial⟩
  · exact Option.some.inj hp ▸ ⟨_, rfl⟩
  · obtain ⟨rfl, rfl⟩ := Prod.mk.inj (Option.some.inj hput)
    exact ⟨by decide, not_below_of_children_nil rfl (by decide)⟩
  · exact Option.some.inj hp ▸ ⟨_, rfl⟩

theorem listHistory_leaves_forest :
    (empty : HostTree Unit).RunPermits listHistory ∧
      ((empty : HostTree Unit).run listHistory).Forest :=
  ⟨listHistory_permits, history_leaves_forest listHistory listHistory_permits⟩

end HostTree

end ReactiveTemplate
