import ReactiveTemplate.Proofs.Document.Histories

/-!
# The names of nodes through a history

A slot enters its next generation when its node is released, and stays in its generation
otherwise. A name that has died therefore means nothing until the generations of its slot have
come round, and all that is asked of it is refused.

* `HostTree.SlotAged`, `HostTree.aged_perform`: what an operation does to each slot.
* `HostTree.releases`: how often a history releases the node of a slot.
* `HostTree.Destroys`: what exactly a destruction takes away.
* `HostTree.Refuses`: what is asked of a dead name fails.
* `HostTree.names_die_once`: the names of all nodes of a history.
-/

namespace ReactiveTemplate

/-- The node that an operation is about, where it is about one node only. -/
def HostOperation.subject? {α : Type} : HostOperation α → Option NodeId
  | .cloneNode id | .remove id | .discard id | .destroy id | .setText id _
  | .setAttribute id _ _ | .setStyle id _ _ | .setValue id _ | .addListener id _ _
  | .removeListener id _ => some id
  | _ => none

namespace HostTree

variable {α : Type} {t t' t'' : HostTree α} {id p c x y : NodeId}

/-! ## Slots under operations -/

/-- The slots of a document are still there, each as a relation allows. -/
def EachSlot (step : Slot α → Slot α → Prop) (t t' : HostTree α) : Prop :=
  ∀ (index : Nat) (slot : Slot α), t.slots[index]? = some slot →
    ∃ slot', t'.slots[index]? = some slot' ∧ step slot slot'

/-- The slot has a node as before, and the same generation. -/
def SlotTouched (slot slot' : Slot α) : Prop :=
  slot'.generation = slot.generation ∧ slot'.node.isSome = slot.node.isSome

/-- The slot has a node if it had one, and the same generation. -/
def SlotFilled (slot slot' : Slot α) : Prop :=
  slot'.generation = slot.generation ∧ (slot.node.isSome → slot'.node.isSome)

/-- The slot is as before, or lost its node and is in its next generation. -/
def SlotEmptied (slot slot' : Slot α) : Prop :=
  SlotTouched slot slot' ∨
    slot'.generation = slot.generation + 1 ∧ slot.node.isSome ∧ slot'.node = none

/-- The slot kept its node, or lost it and is in its next generation, maybe with another node. -/
def SlotAged (slot slot' : Slot α) : Prop :=
  SlotFilled slot slot' ∨ slot'.generation = slot.generation + 1 ∧ slot.node.isSome

theorem EachSlot.trans {first second both : Slot α → Slot α → Prop}
    (hboth : ∀ a b c, first a b → second b c → both a c) (h : EachSlot first t t')
    (h' : EachSlot second t' t'') : EachSlot both t t'' := by
  intro index slot hslot
  obtain ⟨slot₁, hslot₁, hfirst⟩ := h index slot hslot
  obtain ⟨slot₂, hslot₂, hsecond⟩ := h' index slot₁ hslot₁
  exact ⟨slot₂, hslot₂, hboth _ _ _ hfirst hsecond⟩

theorem EachSlot.mono {step weaker : Slot α → Slot α → Prop} (hweaker : ∀ a b, step a b → weaker a b)
    (h : EachSlot step t t') : EachSlot weaker t t' := by
  intro index slot hslot
  obtain ⟨slot', hslot', hstep⟩ := h index slot hslot
  exact ⟨slot', hslot', hweaker _ _ hstep⟩

theorem SlotTouched.filled {a b : Slot α} (h : SlotTouched a b) : SlotFilled a b :=
  ⟨h.1, fun hfull => h.2 ▸ hfull⟩

theorem SlotFilled.trans {a b c : Slot α} (h : SlotFilled a b) (h' : SlotFilled b c) :
    SlotFilled a c := ⟨h'.1.trans h.1, h'.2 ∘ h.2⟩

theorem SlotTouched.trans {a b c : Slot α} (h : SlotTouched a b) (h' : SlotTouched b c) :
    SlotTouched a c := ⟨h'.1.trans h.1, h'.2.trans h.2⟩

theorem SlotEmptied.trans {a b c : Slot α} (h : SlotEmptied a b) (h' : SlotEmptied b c) :
    SlotEmptied a c := by
  rcases h with h | ⟨hgen, hfull, hnone⟩
  · rcases h' with h' | ⟨hgen', hfull', hnone'⟩
    · exact .inl (h.trans h')
    · exact .inr ⟨h.1 ▸ hgen', h.2 ▸ hfull', hnone'⟩
  · rcases h' with h' | ⟨-, hfull', -⟩
    · have hnone' := h'.2
      rw [hnone, Option.isSome_none, Option.isSome_eq_false_iff, Option.isNone_iff_eq_none] at hnone'
      exact .inr ⟨h'.1.trans hgen, hfull, hnone'⟩
    · rw [hnone] at hfull'
      cases hfull'

/-- First a release, then a new node. -/
theorem SlotEmptied.aged {a b c : Slot α} (h : SlotEmptied a b) (h' : SlotFilled b c) :
    SlotAged a c := by
  rcases h with h | ⟨hgen, hfull, -⟩
  · exact .inl (h.filled.trans h')
  · exact .inr ⟨h'.1.trans hgen, hfull⟩

theorem EachSlot.touch (h : EachSlot SlotTouched t t') (h' : EachSlot SlotTouched t' t'') :
    EachSlot SlotTouched t t'' := h.trans (fun _ _ _ hab hbc => hab.trans hbc) h'

theorem EachSlot.fill (h : EachSlot SlotFilled t t') (h' : EachSlot SlotFilled t' t'') :
    EachSlot SlotFilled t t'' := h.trans (fun _ _ _ hab hbc => hab.trans hbc) h'

theorem EachSlot.empty (h : EachSlot SlotEmptied t t') (h' : EachSlot SlotEmptied t' t'') :
    EachSlot SlotEmptied t t'' := h.trans (fun _ _ _ hab hbc => hab.trans hbc) h'

theorem EachSlot.age (h : EachSlot SlotEmptied t t') (h' : EachSlot SlotFilled t' t'') :
    EachSlot SlotAged t t'' := h.trans (fun _ _ _ hab hbc => hab.aged hbc) h'

theorem touched_refl (t : HostTree α) : EachSlot SlotTouched t t :=
  fun _ slot h => ⟨slot, h, rfl, rfl⟩

theorem touched_modify (t : HostTree α) (id : NodeId) (change : Node α → Node α) :
    EachSlot SlotTouched t (t.modify id change) := by
  intro index slot hslot
  rw [modify, Array.getElem?_modify, hslot]
  split
  · refine ⟨_, rfl, ?_⟩
    dsimp only
    split <;> simp [SlotTouched]
  · exact ⟨slot, rfl, rfl, rfl⟩

theorem filled_allocate (t : HostTree α) (node : Node α) :
    EachSlot SlotFilled t (t.allocate node).2 := by
  intro index slot hslot
  cases hfree : t.free with
  | nil =>
    have hlt := (Array.getElem?_eq_some_iff.1 hslot).1
    refine ⟨slot, ?_, rfl, fun h => h⟩
    simp only [allocate, hfree]
    rw [Array.getElem?_push, if_neg hlt.ne, hslot]
  | cons first rest =>
    simp only [allocate, hfree]
    rw [Array.getElem?_modify, hslot]
    split
    · exact ⟨_, rfl, rfl, fun _ => rfl⟩
    · exact ⟨slot, rfl, rfl, fun h => h⟩

theorem emptied_vacate (hid : t.Live id) : EachSlot SlotEmptied t (t.vacate id) := by
  intro index slot hslot
  obtain ⟨n, hn⟩ := hid
  rw [vacate, Array.getElem?_modify, hslot]
  split
  · next heq =>
    refine ⟨_, rfl, .inr ⟨rfl, ?_, rfl⟩⟩
    rw [node?, heq, hslot] at hn
    dsimp only at hn
    split at hn
    · rw [hn]
      rfl
    · cases hn
  · exact ⟨slot, rfl, .inl ⟨rfl, rfl⟩⟩

theorem emptied_releaseFrom (fuel : Nat) :
    ∀ (t : HostTree α) (stack : List NodeId), EachSlot SlotEmptied t (releaseFrom fuel stack t) := by
  induction fuel with
  | zero => exact fun t _ => (touched_refl t).mono fun _ _ => .inl
  | succ fuel ih =>
    intro t stack
    cases stack with
    | nil => exact (touched_refl t).mono fun _ _ => .inl
    | cons id stack =>
      rw [releaseFrom]
      cases hn : t.node? id with
      | none => exact ih t stack
      | some n => exact (emptied_vacate ⟨n, hn⟩).empty (ih _ _)

/-! ## Slots under composed operations -/

theorem EachSlot.filled (h : EachSlot SlotTouched t t') : EachSlot SlotFilled t t' :=
  h.mono fun _ _ => SlotTouched.filled

theorem EachSlot.emptied (h : EachSlot SlotTouched t t') : EachSlot SlotEmptied t t' :=
  h.mono fun _ _ => .inl

theorem filled_append (t : HostTree α) (p : NodeId) (node : Node α) :
    EachSlot SlotFilled t (t.append p node).2 :=
  (filled_allocate t _).fill (touched_modify _ p _).filled

theorem filled_cloneEach {clone : HostTree α → NodeId → Except HostError NodeId × HostTree α}
    (hclone : ∀ t id, EachSlot SlotFilled t (clone t id).2) {ids : List NodeId} :
    ∀ t, EachSlot SlotFilled t (cloneEach clone p ids t).2 := by
  induction ids with
  | nil => exact fun t => (touched_refl t).filled
  | cons child ids ih =>
    intro t
    have hcopy := hclone t child
    rw [cloneEach]
    rcases hc : clone t child with ⟨_ | copy, t₁⟩ <;> rw [hc] at hcopy
    · exact hcopy
    · exact ((hcopy.fill (touched_modify _ copy _).filled).fill (touched_modify _ p _).filled).fill (ih _)

theorem filled_cloneWithin (depth : Nat) :
    ∀ (t : HostTree α) (id : NodeId), EachSlot SlotFilled t (cloneWithin depth t id).2 := by
  induction depth with
  | zero => exact fun t _ => (touched_refl t).filled
  | succ depth ih =>
    intro t id
    rw [cloneWithin]
    cases t.get id with
    | error e => exact (touched_refl t).filled
    | ok n =>
      let node : Node α := { n with parent := none, children := [], listeners := [] }
      have heach : EachSlot SlotFilled (t.allocate node).2 (cloneEach (cloneWithin depth)
          (t.allocate node).1 n.children (t.allocate node).2).2 := filled_cloneEach ih _
      have hall := (filled_allocate t node).fill heach
      dsimp only
      split <;> next heq => rw [heq] at hall; exact hall

theorem touched_detach (h : t.detach id = .ok t') : EachSlot SlotTouched t t' := by
  cases hid : t.node? id with
  | none =>
    rw [detach_dead hid] at h
    cases h
  | some n =>
    simp only [detach, get_of_node? hid, bind, Except.bind] at h
    cases hp : n.parent with
    | none =>
      simp only [hp] at h
      exact Except.ok.inj h ▸ touched_refl t
    | some p =>
      simp only [hp] at h
      cases hget : t.get p with
      | error e =>
        rw [hget] at h
        cases h
      | ok m =>
        rw [hget] at h
        rw [← Except.ok.inj h]
        exact (touched_modify t p _).touch (touched_modify _ id _)

theorem touched_attach (t : HostTree α) (p c : NodeId) (position : Nat) :
    EachSlot SlotTouched t (t.attach p c position) :=
  (touched_modify t p _).touch (touched_modify _ c _)

theorem touched_insertBefore (t : HostTree α) (p c : NodeId) (reference : Option NodeId) :
    EachSlot SlotTouched t (t.insertBefore p c reference).2 := by
  rw [insertBefore]
  split
  · exact touched_refl t
  · split
    · exact touched_refl t
    · next hdetach =>
      have hmoved := touched_detach hdetach
      dsimp only
      split
      · exact hmoved.touch (touched_attach _ p c _)
      · split
        · exact hmoved.touch (touched_attach _ p c _)
        · exact hmoved

theorem touched_insertAfter (t : HostTree α) (anchor c : NodeId) :
    EachSlot SlotTouched t (t.insertAfter anchor c).2 := by
  rw [insertAfter]
  split
  · exact touched_refl t
  · exact touched_insertBefore t _ c _

theorem touched_replace (t : HostTree α) (old new : NodeId) :
    EachSlot SlotTouched t (t.replace old new).2 := by
  rw [replace]
  split
  · exact touched_refl t
  · split
    · exact touched_refl t
    · split
      · exact touched_refl t
      · next hdetach =>
        have hmoved := touched_detach hdetach
        split
        · exact hmoved
        · split
          · exact hmoved
          · exact ((hmoved.touch (touched_modify _ _ _)).touch (touched_modify _ new _)).touch
              (touched_modify _ old _)

theorem touched_update {change : Node α → Node α} (h : t.update id change = .ok t') :
    EachSlot SlotTouched t t' := by
  rw [update] at h
  cases hget : t.get id with
  | error e =>
    rw [hget] at h
    cases h
  | ok n =>
    rw [hget] at h
    exact Except.ok.inj h ▸ touched_modify t id change

theorem emptied_destroy (h : t.destroy id = .ok t') : EachSlot SlotEmptied t t' := by
  rw [destroy] at h
  split at h
  · cases h
  · cases hdetach : t.detach id with
    | error e =>
      rw [hdetach] at h
      cases h
    | ok t₁ =>
      rw [hdetach] at h
      rw [← Except.ok.inj h]
      exact (touched_detach hdetach).emptied.empty (emptied_releaseFrom _ _ _)

theorem emptied_dropAll {ids : List NodeId} :
    ∀ t : HostTree α, EachSlot SlotEmptied t (ids.foldl dropChild t) := by
  induction ids with
  | nil => exact fun t => (touched_refl t).emptied
  | cons c ids ih =>
    intro t
    refine EachSlot.empty ?_ (ih _)
    rw [dropChild]
    split
    · exact (touched_refl t).emptied
    · split
      · exact emptied_releaseFrom _ _ _
      · exact (touched_modify t c _).emptied

theorem emptied_strip (t : HostTree α) (id : NodeId) : EachSlot SlotEmptied t
    ((t.children id).foldl dropChild (t.relist id fun _ => [])) :=
  (touched_modify t id _).emptied.empty (emptied_dropAll _)

theorem aged_setText {text : String} (h : t.setText id text = .ok t') : EachSlot SlotAged t t' := by
  obtain ⟨n, -, ⟨-, rfl⟩ | rfl⟩ := setText_cases h
  · split
    · exact (emptied_strip t id).age (touched_refl _).filled
    · exact (emptied_strip t id).age (filled_append _ id _)
  · exact (touched_modify t id _).filled.mono fun _ _ => .inl

theorem touched_addListener {event : String} {action : α} {number : Nat}
    (h : t.addListener id event action = .ok (number, t')) : EachSlot SlotTouched t t' := by
  rw [addListener] at h
  cases hupdate : t.update id fun n =>
      { n with listeners := n.listeners ++ [⟨t.nextListener, event, action⟩] } with
  | error e =>
    simp only [hupdate, bind, Except.bind] at h
    cases h
  | ok t₁ =>
    simp only [hupdate, bind, Except.bind] at h
    have hlisteners := touched_update hupdate
    rw [← (Prod.mk.inj (Except.ok.inj h)).2]
    exact hlisteners

theorem touched_removeListener {listener : Nat} (h : t.removeListener id listener = .ok t') :
    EachSlot SlotTouched t t' := by
  rw [removeListener] at h
  cases hget : t.get id with
  | error e =>
    rw [hget] at h
    cases h
  | ok n =>
    simp only [hget, bind, Except.bind] at h
    split at h
    · exact Except.ok.inj h ▸ touched_modify t id _
    · cases h

theorem aged_settle {outcome : Except HostError (HostTree α)}
    (hok : ∀ t', outcome = .ok t' → EachSlot SlotAged t t') :
    EachSlot SlotAged t (t.settle outcome).2 := by
  cases outcome with
  | error e => exact (touched_refl t).filled.mono fun _ _ => .inl
  | ok t' => exact hok t' rfl

/-- No operation releases a slot twice. -/
theorem aged_perform (t : HostTree α) (op : HostOperation α) :
    EachSlot SlotAged t (t.perform op).2 := by
  have htouched : ∀ {t' : HostTree α}, EachSlot SlotTouched t t' → EachSlot SlotAged t t' :=
    fun h => h.filled.mono fun _ _ => .inl
  have hfilled : ∀ {t' : HostTree α}, EachSlot SlotFilled t t' → EachSlot SlotAged t t' :=
    fun h => h.mono fun _ _ => .inl
  have hemptied : ∀ {t' : HostTree α}, EachSlot SlotEmptied t t' → EachSlot SlotAged t t' :=
    fun h => h.age (touched_refl _).filled
  cases op with
  | appendElement parent tag attributes => exact hfilled (filled_append t parent _)
  | appendText parent text => exact hfilled (filled_append t parent _)
  | createPlaceholder label => exact hfilled (filled_allocate t _)
  | cloneNode id => exact hfilled (filled_cloneWithin _ t id)
  | insertBefore parent child reference => exact htouched (touched_insertBefore t parent child reference)
  | insertAfter anchor child => exact htouched (touched_insertAfter t anchor child)
  | remove id => exact aged_settle fun _ h => htouched (touched_detach h)
  | discard id => exact aged_settle fun _ h => hemptied (emptied_destroy h)
  | destroy id => exact aged_settle fun _ h => hemptied (emptied_destroy h)
  | replace old new => exact htouched (touched_replace t old new)
  | setText id text => exact aged_settle fun _ h => aged_setText h
  | setAttribute id name value => exact aged_settle fun _ h => htouched (touched_update h)
  | setStyle id name value => exact aged_settle fun _ h => htouched (touched_update h)
  | setValue id value => exact aged_settle fun _ h => htouched (touched_update h)
  | addListener id event action =>
    refine aged_settle fun t' ht' => htouched ?_
    cases hadd : t.addListener id event action with
    | error e =>
      rw [hadd] at ht'
      cases ht'
    | ok added =>
      rw [hadd] at ht'
      exact Except.ok.inj ht' ▸ touched_addListener hadd
  | removeListener id listener => exact aged_settle fun _ h => htouched (touched_removeListener h)

/-! ## Slots through histories -/

/-- Whether the node of a slot is released between two documents. -/
def frees (t t' : HostTree α) (index : Nat) : Bool :=
  match t.slots[index]? with
  | some ⟨generation, some _⟩ => (t'.node? ⟨index, generation⟩).isNone
  | _ => false

/-- How often a history releases the node of a slot. -/
def releases (t : HostTree α) : List (HostOperation α) → Nat → Nat
  | [], _ => 0
  | op :: ops, index =>
    (t.frees (t.perform op).2 index).toNat + (t.perform op).2.releases ops index

theorem releases_append (after : List (HostOperation α)) (index : Nat) :
    ∀ (before : List (HostOperation α)) (t : HostTree α), t.releases (before ++ after) index =
      t.releases before index + (t.run before).releases after index
  | [], t => (Nat.zero_add _).symm
  | op :: before, t => by
    rw [List.cons_append, releases, releases, releases_append after index before, Nat.add_assoc]
    rfl

theorem releases_le_length (index : Nat) :
    ∀ (ops : List (HostOperation α)) (t : HostTree α), t.releases ops index ≤ ops.length
  | [], _ => Nat.le_refl 0
  | op :: ops, t => by
    have hrest := releases_le_length index ops (t.perform op).2
    have hfirst := Bool.toNat_le (t.frees (t.perform op).2 index)
    rw [releases, List.length_cons]
    omega

/-- A slot has aged by one generation where its node was released. -/
theorem EachSlot.generation_eq (h : EachSlot SlotAged t t') {index : Nat} {slot : Slot α}
    (hslot : t.slots[index]? = some slot) :
    ∃ slot', t'.slots[index]? = some slot' ∧
      slot'.generation = slot.generation + UInt32.ofNat (t.frees t' index).toNat ∧
      (t.frees t' index = false → slot.node.isSome → slot'.node.isSome) := by
  obtain ⟨slot', hslot', hstep⟩ := h index slot hslot
  refine ⟨slot', hslot', ?_⟩
  obtain ⟨g, node⟩ := slot
  obtain ⟨g', node'⟩ := slot'
  rw [frees, hslot]
  cases node with
  | none =>
    rcases hstep with ⟨hgen, -⟩ | ⟨-, hfull⟩
    · exact ⟨by simpa using hgen, nofun⟩
    · cases hfull
  | some n =>
    rcases hstep with ⟨hgen, hfull⟩ | ⟨hgen, -⟩
    · obtain ⟨n', rfl⟩ := Option.isSome_iff_exists.1 (hfull rfl)
      simp only at hgen
      have hkept : t'.node? ⟨index, g⟩ = some n' := by simp [node?, hslot', hgen]
      simp [hkept, hgen]
    · simp only at hgen
      have hgone : t'.node? ⟨index, g⟩ = none := by
        have hne : ¬ g + 1 = g := by
          intro heq
          have := congrArg UInt32.toNat heq
          simp [UInt32.toNat_add] at this
          omega
        simp [node?, hslot', hgen, hne]
      simp [hgone, hgen]

/-- A slot has aged by as many generations as its nodes were released. -/
theorem generation_run (index : Nat) :
    ∀ (ops : List (HostOperation α)) (t : HostTree α) {slot : Slot α}, t.slots[index]? = some slot →
      ∃ slot', (t.run ops).slots[index]? = some slot' ∧
        slot'.generation = slot.generation + UInt32.ofNat (t.releases ops index) ∧
        (t.releases ops index = 0 → slot.node.isSome → slot'.node.isSome)
  | [], t, slot, hslot => ⟨slot, hslot, by simp [releases], fun _ h => h⟩
  | op :: ops, t, slot, hslot => by
    obtain ⟨slot₁, hslot₁, hgen₁, hfull₁⟩ := (aged_perform t op).generation_eq hslot
    obtain ⟨slot₂, hslot₂, hgen₂, hfull₂⟩ := generation_run index ops (t.perform op).2 hslot₁
    refine ⟨slot₂, hslot₂, ?_, fun hnone hfull => ?_⟩
    · rw [hgen₂, hgen₁, releases, UInt32.ofNat_add, UInt32.add_assoc]
    · rw [releases, Nat.add_eq_zero_iff, Bool.toNat_eq_zero] at hnone
      exact hfull₂ hnone.2 (hfull₁ hnone.1 hfull)

theorem live_iff_slot : t.Live id ↔
    ∃ slot, t.slots[id.index]? = some slot ∧ slot.generation = id.generation ∧ slot.node.isSome := by
  rw [Live, node?]
  cases hslot : t.slots[id.index]? with
  | none => simp
  | some slot =>
    by_cases hgen : slot.generation = id.generation
    · simp [hgen, Option.isSome_iff_exists]
    · simp [hgen]

/-- A dead name stays dead until the generations of its slot have come round. -/
theorem dead_run {middle after : List (HostOperation α)} (hid : t.Live id)
    (hdead : ¬ (t.run middle).Live id)
    (hfew : t.releases (middle ++ after) id.index < UInt32.size) :
    ¬ ((t.run middle).run after).Live id := by
  obtain ⟨slot, hslot, hgen, hfull⟩ := live_iff_slot.1 hid
  obtain ⟨slot₁, hslot₁, hgen₁, hfull₁⟩ := generation_run id.index middle t hslot
  obtain ⟨slot₂, hslot₂, hgen₂, -⟩ := generation_run id.index after (t.run middle) hslot₁
  have hreleased : t.releases middle id.index ≠ 0 := by
    intro hnone
    refine hdead (live_iff_slot.2 ⟨slot₁, hslot₁, ?_, hfull₁ hnone hfull⟩)
    rw [hgen₁, hnone, hgen]
    exact UInt32.add_zero _
  rw [releases_append] at hfew
  rw [live_iff_slot]
  rintro ⟨slot', hslot', hgen', -⟩
  obtain rfl : slot₂ = slot' := Option.some.inj (hslot₂.symm.trans hslot')
  rw [hgen₂, hgen₁, ← hgen, UInt32.add_assoc, ← UInt32.ofNat_add] at hgen'
  have hround := congrArg UInt32.toNat hgen'
  have hlt := slot.generation.toNat_lt
  rw [UInt32.toNat_add, UInt32.toNat_ofNat'] at hround
  rw [UInt32.size] at hfew
  omega

/-! ## Destroying -/

/-- What a destruction does: the node and all nodes below it are gone, its parent no longer lists
    it, and nothing else has changed. -/
def Destroys (t : HostTree α) (id : NodeId) : Prop :=
  ∃ t', t.destroy id = .ok t' ∧ (∀ y, t.Below id y → t'.node? y = none) ∧
    ∀ y, ¬ t.Below id y → t'.node? y = (t.node? y).map fun n =>
      if t.parent? id = some y then { n with children := n.children.filter (· != id) } else n

theorem Sound.destroys (h : t.Sound) (hid : t.Live id) (hroot : id ≠ root) : t.Destroys id := by
  obtain ⟨t₁, hdetach, hd⟩ := detach_spec h hid
  have hbelow : ∀ y, t₁.Below id y ↔ t.Below id y := by
    refine fun y => ⟨Below.mono hd.fewer, fun hb => ?_⟩
    induction hb with
    | refl => exact Below.refl t₁ id
    | @tail p c hp hc ih =>
      refine ih.tail ?_
      rw [hd.children, List.mem_filter, bne_iff_ne]
      refine ⟨hc, ?_⟩
      rintro rfl
      exact h.tree.acyclic.not_below hc hp
  have hrelease := release_node? hd.sound.tree.linked hd.sound.tree.acyclic (hd.live hid)
  refine ⟨_, ?_, fun y hy => (hrelease y).1 ((hbelow y).2 hy), fun y hy => ?_⟩
  · rw [HostTree.destroy, if_neg hroot, hdetach]
    rfl
  · rw [(hrelease y).2 fun hb => hy ((hbelow y).1 hb)]
    have hne : y ≠ id := fun heq => hy (heq ▸ Below.refl t y)
    have hparent := hd.parent y
    rw [if_neg hne] at hparent
    cases hn : t.node? y with
    | none =>
      have hcontent := hd.content y
      rw [content, content, hn] at hcontent
      exact Option.map_eq_none_iff.1 hcontent
    | some n =>
      rw [node?_of_content_eq hn (hd.content y) hparent, hd.children, children_of_node? hn,
        Option.map_some]
      split
      · rfl
      · next hnot =>
        have hfilter : n.children.filter (· != id) = n.children := by
          refine List.filter_eq_self.2 fun x hx => ?_
          rw [bne_iff_ne]
          rintro rfl
          exact hnot (h.tree.linked.child (children_of_node? hn ▸ hx))
        rw [hfilter]

/-! ## Dead names -/

/-- What is asked of a dead name fails, and mostly because the node does not exist, with nothing
    done. There are other answers where another node is looked at first, or the parent of the node:
    a node that is to go before it is taken out of its parent and then finds it to be no child, it
    is said to be without a parent where a node is to go behind it, and to go behind or into the
    place of a node without a parent fails for the sake of that node. -/
structure Refuses (t : HostTree α) (id : NodeId) : Prop where
  subject : ∀ op : HostOperation α, op.subject? = some id →
    t.perform op = (.error (.unknownNode id.index), t)
  parent : ∀ c reference, t.insertBefore id c reference = (.error (.unknownNode id.index), t)
  child : ∀ p reference, t.Live p →
    t.insertBefore p id reference = (.error (.unknownNode id.index), t)
  behind : ∀ anchor p, t.parent? anchor = some p →
    t.insertAfter anchor id = (.error (.unknownNode id.index), t)
  old : ∀ new, t.replace id new = (.error (.unknownNode id.index), t)
  new : ∀ old p, t.parent? old = some p →
    t.replace old id = (.error (.unknownNode id.index), t)
  text : t.text id = .error (.unknownNode id.index)
  style : ∀ name, t.style id name = .error (.unknownNode id.index)
  value : t.value id = .error (.unknownNode id.index)
  withAttribute : ∀ name, t.withAttribute id name = .error (.unknownNode id.index)
  dispatch : ∀ event, t.dispatch id event = .error (.unknownNode id.index)
  anchor : ∀ c, t.insertAfter id c = (.error (.detached s!"<destroyed #{id.index}>"), t)
  reference : ∀ p c t', t.Live p → t.detach c = .ok t' →
    t.insertBefore p c (some id) =
      (.error (.notAChild (t'.describe p) s!"<destroyed #{id.index}>"), t')
  loose : ∀ other, t.Live other → t.parent? other = none →
    t.insertAfter other id = (.error (.detached (t.describe other)), t) ∧
      t.replace other id = (.error (.detached (t.describe other)), t)

theorem refuses_of_dead (h : t.Sound) (hdead : ¬ t.Live id) : t.Refuses id := by
  have hnone : t.node? id = none := by
    rw [← Option.not_isSome_iff_eq_none, Option.isSome_iff_exists]
    exact hdead
  have hget := get_dead hnone
  have hdetach := detach_dead hnone
  have hroot : id ≠ root := by
    rintro rfl
    exact hdead h.tree.linked.rooted
  have hupdate : ∀ change, t.update id change = .error (.unknownNode id.index) := by
    intro change
    rw [update, hget]
    rfl
  refine ⟨fun op hop => ?_, fun c reference => ?_, fun p reference hp => ?_,
    fun anchor p hp => ?_, fun new => ?_, fun old p hp => ?_, ?_, fun name => ?_, ?_, fun name => ?_,
    fun event => ?_, fun c => ?_, fun p c t' hp hc => ?_, fun other hother hparent => ?_⟩
  · have hdestroy : t.destroy id = .error (.unknownNode id.index) := by
      rw [destroy, if_neg hroot, hdetach]
      rfl
    have hclone : t.cloneNode id = (.error (.unknownNode id.index), t) := by
      rw [cloneNode, cloneWithin, hget]
    have hset : ∀ text, t.setText id text = .error (.unknownNode id.index) := by
      intro text
      rw [setText, hget]
      rfl
    have hadd : ∀ event action, t.addListener id event action =
        .error (.unknownNode id.index) := by
      intro event action
      simp only [addListener, hupdate]
      rfl
    have hremove : ∀ listener, t.removeListener id listener = .error (.unknownNode id.index) := by
      intro listener
      rw [removeListener, hget]
      rfl
    cases op <;> simp only [HostOperation.subject?, Option.some.injEq, reduceCtorEq] at hop <;>
      subst hop <;> simp only [perform, hclone, HostTree.remove, hdetach, hdestroy, hset, setAttribute,
        setStyle, setValue, hupdate, hadd, hremove] <;> rfl
  · rw [insertBefore, hget]
  · obtain ⟨m, hm⟩ := hp
    rw [insertBefore, get_of_node? hm, hdetach]
  · obtain ⟨m, hm⟩ := h.tree.live_parent hp
    simp only [insertAfter, hp, insertBefore, get_of_node? hm, hdetach]
  · rw [replace, hget]
  · obtain ⟨n, hn⟩ := live_of_parent? hp
    rw [parent?_of_node? hn] at hp
    simp only [replace, get_of_node? hn, hp, hdetach]
  · rw [HostTree.text, hget]
    rfl
  · rw [HostTree.style, hget]
    rfl
  · rw [HostTree.value, hget]
    rfl
  · rw [HostTree.withAttribute, hget]
    rfl
  · rw [HostTree.dispatch, hget]
    rfl
  · rw [insertAfter, parent?_of_node?_none hnone, describe, hnone]
  · have hlive : t.Live c := by
      cases hn : t.node? c with
      | none =>
        rw [detach_dead hn] at hc
        cases hc
      | some n => exact ⟨n, hn⟩
    obtain ⟨t₁, hdetach₁, hd⟩ := detach_spec h hlive
    obtain rfl : t₁ = t' := Except.ok.inj (hdetach₁.symm.trans hc)
    have hchild : id ∉ t.children p :=
      fun hmem => hdead (live_of_parent? (h.tree.linked.child hmem))
    have hnone' : t₁.node? id = none := by
      have hcontent := hd.content id
      rw [content, content, hnone] at hcontent
      exact Option.map_eq_none_iff.1 hcontent
    rw [insertBefore_reference hp hc, hd.idxOf?_eq_none.2 (.inr hchild)]
    simp only [describe, hnone']
  · obtain ⟨n, hn⟩ := hother
    have hloose : n.parent = none := (parent?_of_node? hn).symm.trans hparent
    simp only [insertAfter, hparent, replace, get_of_node? hn, hloose, and_self]

/-! ## Names of a history -/

theorem RunPermits.append {before after : List (HostOperation α)} :
    ∀ {t : HostTree α}, t.RunPermits (before ++ after) →
      t.RunPermits before ∧ (t.run before).RunPermits after := by
  induction before with
  | nil => exact fun h => ⟨trivial, h⟩
  | cons op before ih =>
    intro t h
    obtain ⟨hbefore, hafter⟩ := ih h.2
    exact ⟨⟨h.1, hbefore⟩, hafter⟩

/-- Where no slot comes round its generations, a destruction takes away one subtree, a name that
    has died stays dead and is refused, and of nodes that are there at the same time each has
    its own name. -/
theorem names_die_once (before middle after : List (HostOperation α))
    (hops : (empty : HostTree α).RunPermits (before ++ (middle ++ after)))
    (hfew : ∀ index, (empty : HostTree α).releases (before ++ (middle ++ after)) index < UInt32.size) :
    let t := (empty : HostTree α).run before
    let t₁ := t.run middle
    let t₂ := t₁.run after
    (∀ id, t.Live id → id ≠ root → t.Destroys id) ∧
      (∀ id, t.Live id → ¬ t₁.Live id → ¬ t₂.Live id ∧ t₂.Refuses id) ∧
      (∀ x y, t.Live x → t.Live y → x.index = y.index → x = y) ∧
      ∀ node, ¬ t.Live (t.allocate node).1 := by
  intro t t₁ t₂
  obtain ⟨hbefore, hrest⟩ := hops.append
  obtain ⟨hmiddle, hafter⟩ := hrest.append
  have h : t.Sound := sound_empty.run hbefore
  have h₂ : t₂.Sound := (h.run hmiddle).run hafter
  refine ⟨fun id => h.destroys, fun id hid hdead => ?_, fun x y => eq_of_index_eq, fun node => ?_⟩
  · have hfew' : t.releases (middle ++ after) id.index < UInt32.size := by
      refine lt_of_le_of_lt ?_ (hfew id.index)
      rw [releases_append (middle ++ after)]
      exact Nat.le_add_left _ _
    have hdead₂ : ¬ t₂.Live id := dead_run hid hdead hfew'
    exact ⟨hdead₂, refuses_of_dead h₂ hdead₂⟩
  · rintro ⟨n, hn⟩
    rw [node?_allocate_fresh h.tree.linked.free] at hn
    cases hn

/-- The list of a history is destroyed, and a text takes its slot. -/
theorem listHistory_names_die_once :
    let before := (listHistory.take 4)
    let middle := [HostOperation.destroy ⟨1, 0⟩]
    let after := (listHistory.drop 5)
    let t := (empty : HostTree Unit).run before
    t.Live ⟨1, 0⟩ ∧ t.Destroys ⟨1, 0⟩ ∧ ¬ (t.run middle).Live ⟨1, 0⟩ ∧
      ¬ ((t.run middle).run after).Live ⟨1, 0⟩ ∧ ((t.run middle).run after).Refuses ⟨1, 0⟩ := by
  intro before middle after t
  have hnames := names_die_once before middle after listHistory_permits fun index =>
    lt_of_le_of_lt (releases_le_length index _ _) (by decide)
  have hlive : t.Live ⟨1, 0⟩ := ⟨_, rfl⟩
  have hdead : ¬ (t.run middle).Live ⟨1, 0⟩ := fun ⟨n, hn⟩ => nomatch hn
  obtain ⟨hdestroys, hdie, -⟩ := hnames
  exact ⟨hlive, hdestroys _ hlive (by decide), hdead, hdie _ hlive hdead⟩

end HostTree

end ReactiveTemplate
