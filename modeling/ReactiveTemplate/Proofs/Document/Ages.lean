import ReactiveTemplate.Proofs.Document.Lifetimes

/-!
# How old slots get

A slot is in its next generation after each release. As long as it has not been released as often
as there are generations, a name that has died means nothing.

* `HostTree.AgedBy`: no slot was released more often than some number of times.
* `HostTree.Spent`: the name of a node that is gone.
* `HostTree.AgedBy.stays_dead`: dead names, where slots do not get too old.
-/

namespace ReactiveTemplate.HostTree

variable {α : Type} {t t₁ t' t'' : HostTree α} {id : NodeId} {n m : Nat}

/-- Every slot is still there and was released at most `n` times. One that was not released still
    has its node. -/
def AgedBy (n : Nat) (t t' : HostTree α) : Prop :=
  EachSlot (fun slot slot' => ∃ k ≤ n, slot'.generation = slot.generation + UInt32.ofNat k ∧
    (k = 0 → slot.node.isSome → slot'.node.isSome)) t t'

theorem EachSlot.agedBy_zero (h : EachSlot SlotFilled t t') : t.AgedBy 0 t' :=
  h.mono fun _ _ ⟨hgeneration, hfull⟩ =>
    ⟨0, Nat.le_refl 0, by rw [hgeneration]; exact (UInt32.add_zero _).symm, fun _ => hfull⟩

theorem EachSlot.agedBy_one (h : EachSlot SlotAged t t') : t.AgedBy 1 t' := by
  refine h.mono fun a b hab => ?_
  rcases hab with ⟨hgeneration, hfull⟩ | ⟨hgeneration, -⟩
  · refine ⟨0, Nat.zero_le 1, ?_, fun _ => hfull⟩
    rw [hgeneration]
    exact (UInt32.add_zero _).symm
  · exact ⟨1, Nat.le_refl 1, hgeneration, nofun⟩

theorem AgedBy.refl (t : HostTree α) : t.AgedBy 0 t := (touched_refl t).filled.agedBy_zero

theorem AgedBy.mono (h : t.AgedBy n t') (hle : n ≤ m) : t.AgedBy m t' :=
  EachSlot.mono (fun _ _ ⟨k, hk, hslot⟩ => ⟨k, hk.trans hle, hslot⟩) h

theorem AgedBy.trans (h : t.AgedBy n t') (h' : t'.AgedBy m t'') : t.AgedBy (n + m) t'' := by
  refine EachSlot.trans (fun a b c hab hbc => ?_) h h'
  obtain ⟨k, hk, hgeneration, hfull⟩ := hab
  obtain ⟨k', hk', hgeneration', hfull'⟩ := hbc
  refine ⟨k + k', Nat.add_le_add hk hk', ?_, fun hnone ha => ?_⟩
  · rw [hgeneration', hgeneration, UInt32.ofNat_add, UInt32.add_assoc]
  · obtain ⟨rfl, rfl⟩ := Nat.add_eq_zero_iff.1 hnone
    exact hfull' rfl (hfull rfl ha)

theorem aged_run (ops : List (HostOperation α)) :
    ∀ t : HostTree α, t.AgedBy ops.length (t.run ops) := by
  induction ops with
  | nil => exact AgedBy.refl
  | cons op ops ih =>
    intro t
    rw [List.length_cons, Nat.add_comm]
    exact (aged_perform t op).agedBy_one.trans (ih _)

theorem emptied_destroyAll (ids : List NodeId) :
    ∀ t : HostTree α, EachSlot SlotEmptied t (despiteFailures destroy ids t).2 := by
  induction ids with
  | nil => exact fun t => (touched_refl t).emptied
  | cons c ids ih =>
    intro t
    rw [despiteFailures]
    cases hdestroy : t.destroy c with
    | error e => exact ih t
    | ok t' => exact (emptied_destroy hdestroy).empty (ih t')

/-- The node of a name is gone: its slot has been released since, at most `n` times. -/
def Spent (t : HostTree α) (n : Nat) (id : NodeId) : Prop :=
  ∃ slot, t.slots[id.index]? = some slot ∧
    ∃ k, 0 < k ∧ k ≤ n ∧ slot.generation = id.generation + UInt32.ofNat k

/-- A spent name means nothing before the generations of its slot come round. -/
theorem Spent.not_live (h : t.Spent n id) (hfew : n < UInt32.size) : ¬ t.Live id := by
  obtain ⟨slot, hslot, k, hpos, hk, hgeneration⟩ := h
  rw [live_iff_slot]
  rintro ⟨other, hother, heq, -⟩
  obtain rfl : slot = other := Option.some.inj (hslot.symm.trans hother)
  rw [hgeneration] at heq
  have hround := congrArg UInt32.toNat heq
  have hlt := id.generation.toNat_lt
  rw [UInt32.toNat_add, UInt32.toNat_ofNat'] at hround
  rw [UInt32.size] at hfew
  omega

theorem Spent.mono (h : t.Spent n id) (hle : n ≤ m) : t.Spent m id := by
  obtain ⟨slot, hslot, k, hpos, hk, hgeneration⟩ := h
  exact ⟨slot, hslot, k, hpos, hk.trans hle, hgeneration⟩

theorem Spent.age (h : t.Spent n id) (haged : t.AgedBy m t') : t'.Spent (n + m) id := by
  obtain ⟨slot, hslot, k, hpos, hk, hgeneration⟩ := h
  obtain ⟨slot', hslot', k', hk', hgeneration', -⟩ := haged id.index slot hslot
  refine ⟨slot', hslot', k + k', Nat.add_pos_left hpos k', Nat.add_le_add hk hk', ?_⟩
  rw [hgeneration', hgeneration, UInt32.ofNat_add, UInt32.add_assoc]

/-- A name keeps its node or is spent. -/
theorem AgedBy.live_or_spent (h : t.AgedBy n t') (hid : t.Live id) :
    t'.Live id ∨ t'.Spent n id := by
  obtain ⟨slot, hslot, hgeneration, hfull⟩ := live_iff_slot.1 hid
  obtain ⟨slot', hslot', k, hk, hgeneration', hkept⟩ := h id.index slot hslot
  rcases Nat.eq_zero_or_pos k with rfl | hpos
  · refine .inl (live_iff_slot.2 ⟨slot', hslot', ?_, hkept rfl hfull⟩)
    rw [hgeneration', hgeneration]
    exact UInt32.add_zero _
  · exact .inr ⟨slot', hslot', k, hpos, hk, by rw [hgeneration', hgeneration]⟩

/-- A name that has died stays dead while its slot is not released as often as there are
    generations. -/
theorem AgedBy.stays_dead (h : t.AgedBy n t₁) (h' : t₁.AgedBy m t') (hid : t.Live id)
    (hdead : ¬ t₁.Live id) (hfew : n + m < UInt32.size) : ¬ t'.Live id :=
  (((h.live_or_spent hid).resolve_left hdead).age h').not_live hfew

end ReactiveTemplate.HostTree
