import ReactiveTemplate.Proofs.Document.Guards
import ReactiveTemplate.Proofs.Document.Histories

/-!
# The numbers of listeners

Only adding a listener makes one, and gives it the next number. So the listeners of a document have
smaller numbers than those to come, whatever was done to the document.

* `HostTree.Mute`: a change after which no listener is new.
* `HostTree.Numbered`: listeners have numbers that were given out; `HostTree.numbered_run`: so they do
  after every history.
-/

namespace ReactiveTemplate.HostTree

variable {α : Type} {t t' t'' : HostTree α} {id p c : NodeId} {node : Node α}

/-! ## Changes without new listeners -/

/-- No listener is new: each node has some of those that it had. -/
structure Mute (t t' : HostTree α) : Prop where
  next : t'.nextListener = t.nextListener
  fewer : ∀ y, t'.listenersOf y ⊆ t.listenersOf y

theorem Mute.refl (t : HostTree α) : t.Mute t := ⟨rfl, fun _ => List.Subset.refl _⟩

theorem Mute.trans (h : t.Mute t') (h' : t'.Mute t'') : t.Mute t'' :=
  ⟨h'.next.trans h.next, fun y => List.Subset.trans (h'.fewer y) (h.fewer y)⟩

/-- Each node was there before, or has no listeners. -/
theorem Mute.of_node? (hnext : t'.nextListener = t.nextListener)
    (h : ∀ y n, t'.node? y = some n → n.listeners = [] ∨ t.node? y = some n) : t.Mute t' := by
  refine ⟨hnext, fun y => ?_⟩
  rw [listenersOf, listenersOf]
  cases hn : t'.node? y with
  | none => exact List.nil_subset _
  | some n =>
    rcases h y n hn with hnone | hsame
    · rw [Option.elim_some, hnone]
      exact List.nil_subset _
    · rw [hsame]
      exact List.Subset.refl _

theorem mute_modify_fewer (t : HostTree α) (id : NodeId) {change : Node α → Node α}
    (hfewer : ∀ n, (change n).listeners ⊆ n.listeners) : t.Mute (t.modify id change) := by
  refine ⟨rfl, fun y => ?_⟩
  rw [listenersOf, listenersOf, node?_modify]
  split
  · next heq =>
    rw [heq]
    cases t.node? id with
    | none => exact List.Subset.refl _
    | some n => exact hfewer n
  · exact List.Subset.refl _

theorem mute_modify (t : HostTree α) (id : NodeId) {change : Node α → Node α}
    (hsame : ∀ n, (change n).listeners = n.listeners) : t.Mute (t.modify id change) :=
  mute_modify_fewer t id fun n => by rw [hsame n]; exact List.Subset.refl _

theorem mute_allocate (t : HostTree α) (hnone : node.listeners = []) :
    t.Mute (t.allocate node).2 := by
  cases hfree : t.free with
  | nil =>
    simp only [allocate, hfree]
    refine .of_node? rfl fun y n hn => ?_
    rw [node?, Array.getElem?_push] at hn
    by_cases hy : y.index = t.slots.size
    · rw [if_pos hy] at hn
      dsimp only at hn
      split at hn
      · exact .inl (Option.some.inj hn ▸ hnone)
      · cases hn
    · rw [if_neg hy] at hn
      exact .inr hn
  | cons first rest =>
    simp only [allocate, hfree]
    refine .of_node? rfl fun y n hn => ?_
    rw [node?, Array.getElem?_modify] at hn
    by_cases hy : first = y.index
    · rw [if_pos hy] at hn
      cases hslot : t.slots[y.index]? with
      | none =>
        rw [hslot] at hn
        cases hn
      | some slot =>
        rw [hslot, Option.map_some] at hn
        dsimp only at hn
        split at hn
        · exact .inl (Option.some.inj hn ▸ hnone)
        · cases hn
    · rw [if_neg hy] at hn
      exact .inr hn

theorem mute_vacate (t : HostTree α) (id : NodeId) : t.Mute (t.vacate id) := by
  refine .of_node? rfl fun y n hn => .inr ?_
  rw [node?, vacate, Array.getElem?_modify] at hn
  by_cases hy : id.index = y.index
  · rw [if_pos hy] at hn
    cases hslot : t.slots[y.index]? with
    | none =>
      rw [hslot] at hn
      cases hn
    | some slot =>
      rw [hslot, Option.map_some] at hn
      dsimp only at hn
      split at hn <;> cases hn
  · rw [if_neg hy] at hn
    exact hn

/-! ## Operations without new listeners -/

theorem mute_releaseFrom (fuel : Nat) :
    ∀ (t : HostTree α) (stack : List NodeId), t.Mute (releaseFrom fuel stack t) := by
  induction fuel with
  | zero => exact fun t _ => .refl t
  | succ fuel ih =>
    intro t stack
    cases stack with
    | nil => exact .refl t
    | cons id stack =>
      rw [releaseFrom]
      cases t.node? id with
      | none => exact ih t stack
      | some n => exact (mute_vacate t id).trans (ih _ _)

theorem mute_append (t : HostTree α) (p : NodeId) (hnone : node.listeners = []) :
    t.Mute (t.append p node).2 := by
  have hnew : ({ node with parent := some p } : Node α).listeners = [] := hnone
  refine (mute_allocate t hnew).trans (mute_modify _ p ?_)
  exact fun _ => rfl

theorem mute_cloneEach {clone : HostTree α → NodeId → Except HostError NodeId × HostTree α}
    (hclone : ∀ (t : HostTree α) id, t.Mute (clone t id).2) {ids : List NodeId} :
    ∀ t : HostTree α, t.Mute (cloneEach clone p ids t).2 := by
  induction ids with
  | nil => exact fun t => .refl t
  | cons child ids ih =>
    intro t
    have hcopy := hclone t child
    rw [cloneEach]
    rcases hc : clone t child with ⟨_ | copy, t₁⟩ <;> rw [hc] at hcopy
    · exact hcopy
    · refine ((hcopy.trans (mute_modify _ copy ?_)).trans (mute_modify _ p ?_)).trans (ih _)
      all_goals exact fun _ => rfl

theorem mute_cloneWithin (depth : Nat) :
    ∀ (t : HostTree α) (id : NodeId), t.Mute (cloneWithin depth t id).2 := by
  induction depth with
  | zero => exact fun t _ => .refl t
  | succ depth ih =>
    intro t id
    rw [cloneWithin]
    cases t.get id with
    | error e => exact .refl t
    | ok n =>
      let node : Node α := { n with parent := none, children := [], listeners := [] }
      have heach : (t.allocate node).2.Mute (cloneEach (cloneWithin depth) (t.allocate node).1
          n.children (t.allocate node).2).2 := mute_cloneEach ih _
      have hall := (mute_allocate t (show node.listeners = [] from rfl)).trans heach
      dsimp only
      split <;> next heq => rw [heq] at hall; exact hall

theorem mute_detach (h : t.detach id = .ok t') : t.Mute t' := by
  cases hid : t.node? id with
  | none =>
    rw [detach_dead hid] at h
    cases h
  | some n =>
    simp only [detach, get_of_node? hid, bind, Except.bind] at h
    cases hp : n.parent with
    | none =>
      simp only [hp] at h
      exact Except.ok.inj h ▸ .refl t
    | some p =>
      simp only [hp] at h
      cases hget : t.get p with
      | error e =>
        rw [hget] at h
        cases h
      | ok m =>
        rw [hget] at h
        rw [← Except.ok.inj h]
        refine (mute_modify t p ?_).trans (mute_modify _ id ?_)
        all_goals exact fun _ => rfl

theorem mute_attach (t : HostTree α) (p c : NodeId) (position : Nat) :
    t.Mute (t.attach p c position) := by
  refine (mute_modify t p ?_).trans (mute_modify _ c ?_)
  all_goals exact fun _ => rfl

theorem mute_insertBefore (t : HostTree α) (p c : NodeId) (reference : Option NodeId) :
    t.Mute (t.insertBefore p c reference).2 := by
  rw [insertBefore]
  split
  · exact .refl t
  · split
    · exact .refl t
    · next hdetach =>
      have hmoved := mute_detach hdetach
      dsimp only
      split
      · exact hmoved.trans (mute_attach _ p c _)
      · split
        · exact hmoved.trans (mute_attach _ p c _)
        · exact hmoved

theorem mute_insertAfter (t : HostTree α) (anchor c : NodeId) :
    t.Mute (t.insertAfter anchor c).2 := by
  rw [insertAfter]
  split
  · exact .refl t
  · exact mute_insertBefore t _ c _

theorem mute_replace (t : HostTree α) (old new : NodeId) : t.Mute (t.replace old new).2 := by
  rw [replace]
  split
  · exact .refl t
  · split
    · exact .refl t
    · split
      · exact .refl t
      · next hdetach =>
        have hmoved := mute_detach hdetach
        split
        · exact hmoved
        · split
          · exact hmoved
          · refine ((hmoved.trans (mute_modify _ _ ?_)).trans (mute_modify _ new ?_)).trans
              (mute_modify _ old ?_)
            all_goals exact fun _ => rfl

theorem mute_update {change : Node α → Node α} (h : t.update id change = .ok t')
    (hsame : ∀ n, (change n).listeners = n.listeners) : t.Mute t' :=
  eq_modify_of_update h ▸ mute_modify t id hsame

theorem mute_destroy (h : t.destroy id = .ok t') : t.Mute t' := by
  rw [destroy] at h
  split at h
  · cases h
  · cases hdetach : t.detach id with
    | error e =>
      rw [hdetach] at h
      cases h
    | ok t₁ =>
      rw [hdetach] at h
      rw [← Except.ok.inj h]
      exact (mute_detach hdetach).trans (mute_releaseFrom _ _ _)

theorem mute_dropAll {ids : List NodeId} : ∀ t : HostTree α, t.Mute (ids.foldl dropChild t) := by
  induction ids with
  | nil => exact fun t => .refl t
  | cons c ids ih =>
    intro t
    refine Mute.trans ?_ (ih _)
    rw [dropChild]
    split
    · exact .refl t
    · split
      · exact mute_releaseFrom _ _ _
      · exact mute_modify t c fun _ => rfl

theorem mute_setText {text : String} (h : t.setText id text = .ok t') : t.Mute t' := by
  have hdropped : t.Mute ((t.children id).foldl dropChild (t.relist id fun _ => [])) := by
    refine (mute_modify t id ?_).trans (mute_dropAll _)
    exact fun _ => rfl
  obtain ⟨n, -, ⟨-, rfl⟩ | rfl⟩ := setText_cases h
  · split
    · exact hdropped
    · exact hdropped.trans (mute_append _ id rfl)
  · exact mute_modify t id fun _ => rfl

theorem mute_removeListener {listener : Nat} (h : t.removeListener id listener = .ok t') :
    t.Mute t' := by
  rw [removeListener] at h
  cases hget : t.get id with
  | error e =>
    rw [hget] at h
    cases h
  | ok n =>
    simp only [hget, bind, Except.bind] at h
    split at h
    · exact Except.ok.inj h ▸ mute_modify_fewer t id fun _ => List.eraseP_subset
    · cases h

/-! ## Numbers -/

/-- The listeners of a document have smaller numbers than those to come. -/
def Numbered (t : HostTree α) : Prop := ∀ x, ∀ l ∈ t.listenersOf x, l.id < t.nextListener

namespace Numbered

theorem mute (h : t.Numbered) (hmute : t.Mute t') : t'.Numbered := fun x l hl =>
  hmute.next ▸ h x l (hmute.fewer x hl)

theorem settle (h : t.Numbered) {outcome : Except HostError (HostTree α)}
    (hok : ∀ t', outcome = .ok t' → t'.Numbered) : (t.settle outcome).2.Numbered := by
  cases outcome with
  | error e => exact h
  | ok t' => exact hok t' rfl

/-- A new listener takes the number that comes next. -/
theorem addListener (h : t.Numbered) {event : String} {action : α} {number : Nat}
    (hadd : t.addListener id event action = .ok (number, t')) : t'.Numbered := by
  let change : Node α → Node α := fun n =>
    { n with listeners := n.listeners ++ [⟨t.nextListener, event, action⟩] }
  rw [HostTree.addListener] at hadd
  cases hupdate : t.update id change with
  | error e =>
    simp only [change] at hupdate
    simp only [hupdate, bind, Except.bind] at hadd
    cases hadd
  | ok t₁ =>
    have hmodify := eq_modify_of_update hupdate
    simp only [change] at hupdate
    simp only [hupdate, bind, Except.bind] at hadd
    rw [← (Prod.mk.inj (Except.ok.inj hadd)).2, hmodify]
    intro x l hl
    have hmem : l ∈ (t.modify id change).listenersOf x := hl
    refine Nat.lt_succ_iff.2 ?_
    rw [listenersOf, node?_modify] at hmem
    split at hmem
    · next heq =>
      cases hn : t.node? id with
      | none =>
        rw [hn] at hmem
        cases hmem
      | some n =>
        rw [hn] at hmem
        rcases List.mem_append.1 hmem with hold | hnew
        · refine (h id l ?_).le
          rw [listenersOf, hn]
          exact hold
        · rw [List.mem_singleton.1 hnew]
    · exact (h x l hmem).le

theorem perform (h : t.Numbered) (op : HostOperation α) : (t.perform op).2.Numbered := by
  cases op with
  | appendElement parent tag attributes => exact h.mute (mute_append t parent rfl)
  | appendText parent text => exact h.mute (mute_append t parent rfl)
  | createPlaceholder label => exact h.mute (mute_allocate t rfl)
  | cloneNode id => exact h.mute (mute_cloneWithin _ t id)
  | insertBefore parent child reference => exact h.mute (mute_insertBefore t parent child reference)
  | insertAfter anchor child => exact h.mute (mute_insertAfter t anchor child)
  | remove id => exact h.settle fun _ hop => h.mute (mute_detach hop)
  | discard id => exact h.settle fun _ hop => h.mute (mute_destroy hop)
  | destroy id => exact h.settle fun _ hop => h.mute (mute_destroy hop)
  | replace old new => exact h.mute (mute_replace t old new)
  | setText id text => exact h.settle fun _ hop => h.mute (mute_setText hop)
  | setAttribute id name value =>
    exact h.settle fun _ hop => h.mute (mute_update hop fun _ => rfl)
  | setStyle id name value =>
    exact h.settle fun _ hop => h.mute (mute_update hop fun _ => rfl)
  | setValue id value =>
    exact h.settle fun _ hop => h.mute (mute_update hop fun _ => rfl)
  | addListener id event action =>
    refine h.settle fun t' hop => ?_
    cases hadd : t.addListener id event action with
    | error e =>
      rw [hadd] at hop
      cases hop
    | ok added =>
      rw [hadd] at hop
      exact Except.ok.inj hop ▸ h.addListener hadd
  | removeListener id listener => exact h.settle fun _ hop => h.mute (mute_removeListener hop)

theorem run (ops : List (HostOperation α)) : ∀ {t : HostTree α}, t.Numbered → (t.run ops).Numbered := by
  induction ops with
  | nil => exact fun h => h
  | cons op ops ih => exact fun h => ih (h.perform op)

end Numbered

theorem numbered_empty : (empty : HostTree α).Numbered := by
  intro x l hl
  have hnone : (empty : HostTree α).listenersOf x = [] := by
    obtain ⟨_ | index, generation⟩ := x
    · by_cases hg : generation = 0
      · rw [hg]
        rfl
      · simp [listenersOf, node?, empty, Ne.symm hg]
    · simp [listenersOf, node?, empty]
  rw [hnone] at hl
  cases hl

/-- After every history the listeners of a document have numbers that were given out. -/
theorem numbered_run (ops : List (HostOperation α)) : ((empty : HostTree α).run ops).Numbered :=
  numbered_empty.run ops

end ReactiveTemplate.HostTree
