import ReactiveTemplate.Proofs.State.Growth

/-!
# Unshared states

A datum that takes over no container is placed without sharing: each of its containers is
fresh and lies at one place.

* `Heap.Fresh`: all containers below a value are new, and none lies at two places.
* `Heap.place_fresh`: placing gives a fresh value.
-/

namespace ReactiveTemplate

namespace Heap

variable {h h' : Heap}

/-- All containers below a value are new in a heap, and none lies at two places. -/
structure Fresh (h h' : Heap) (value : Value) : Prop where
  new : ∀ keys c, h'.containerAlong? value keys = some c → ¬ h.Known c
  unshared : h'.Unshared value

/-- The same for several values, which have no container in common. -/
structure AllFresh (h h' : Heap) (values : List Value) : Prop where
  each : ∀ value ∈ values, Fresh h h' value
  apart : ∀ (i j : Nat) v w keys keys' c, values[i]? = some v → values[j]? = some w →
    h'.containerAlong? v keys = some c → h'.containerAlong? w keys' = some c → i = j

theorem Fresh.plain {value : Value} (hvalue : value.container? = none) : Fresh h h' value := by
  constructor
  · intro keys c hc
    rw [containerAlong?_of_container?_eq_none hvalue] at hc
    cases hc
  · intro keys keys' c hc
    rw [containerAlong?_of_container?_eq_none hvalue] at hc
    cases hc

/-- Growth keeps a fresh value fresh. -/
theorem Fresh.grows {h'' : Heap} {value : Value} (hf : Fresh h h' value) (hr : h'.AtRest)
    (hv : value.Known h') (hg : h'.Grows h'') : Fresh h h'' value := by
  have hb := hg.agreeBelow hr hv
  constructor
  · intro keys c hc
    rw [← hb.containerAlong?] at hc
    exact hf.new keys c hc
  · intro keys keys' c hc hc'
    rw [← hb.containerAlong?] at hc hc'
    exact hf.unshared keys keys' c hc hc'

/-- What is new in a grown heap is new. -/
theorem Fresh.mono {h₀ : Heap} {value : Value} (hf : Fresh h h' value) (hg : h₀.Grows h) :
    Fresh h₀ h' value :=
  ⟨fun keys c hc hk => hf.new keys c hc (hg.known c hk), hf.unshared⟩

theorem AllFresh.cons {h₁ : Heap} {value : Value} {values : List Value} (hg : h.Grows h₁)
    (hr : h₁.AtRest) (hv : value.Known h₁) (hg' : h₁.Grows h') (hfirst : Fresh h h₁ value)
    (hrest : AllFresh h₁ h' values) : AllFresh h h' (value :: values) := by
  have hfirst' := hfirst.grows hr hv hg'
  -- The containers of the first value are known when the others are placed.
  have hold : ∀ keys c, h'.containerAlong? value keys = some c → h₁.Known c := by
    intro keys c hc
    rw [← (hg'.agreeBelow hr hv).containerAlong?] at hc
    exact hr.known_of_containerAlong? hv hc
  have hnew : ∀ (i : Nat) w keys c, values[i]? = some w → h'.containerAlong? w keys = some c →
      ¬ h₁.Known c :=
    fun i w keys c hw hc => (hrest.each w (List.mem_of_getElem? hw)).new keys c hc
  constructor
  · intro w hw
    rcases List.mem_cons.1 hw with rfl | hw
    · exact hfirst'
    · exact (hrest.each w hw).mono hg
  · intro i j v w keys keys' c hi hj hc hc'
    cases i with
    | zero =>
      cases j with
      | zero => rfl
      | succ j =>
        obtain rfl := Option.some.inj hi
        exact absurd (hold keys c hc) (hnew j w keys' c hj hc')
    | succ i =>
      cases j with
      | zero =>
        obtain rfl := Option.some.inj hj
        exact absurd (hold keys' c hc') (hnew i v keys c hi hc)
      | succ j => exact congrArg (· + 1) (hrest.apart i j v w keys keys' c hi hj hc hc')

/-- A container whose contents were placed before it. Each of its steps leads to a value of
    its own. -/
theorem Fresh.container {h₁ : Heap} {c : Container} {values : List Value}
    {P : Key → Nat → Prop} (hP : ∀ key key' i, P key i → P key' i → key = key') (hg : h.Grows h₁)
    (hr : h₁.AtRest) (hknown : ∀ v ∈ values, v.Known h₁) (hg' : h₁.Grows h')
    (hall : AllFresh h h₁ values) (hnew : ¬ h₁.Known c)
    (hchild : ∀ key v, h'.child? c key = some v → ∃ i, values[i]? = some v ∧ P key i) :
    Fresh h h' c.value := by
  -- Below the container lie the values, whose containers are older.
  have hbelow : ∀ key keys d, h'.containerAlong? c.value (key :: keys) = some d →
      ∃ v, h'.child? c key = some v ∧ h'.containerAlong? v keys = some d := by
    intro key keys d hd
    have hc : c.value.container? = some c := by cases c <;> rfl
    rw [containerAlong?, at?_cons, hc, Option.bind_some] at hd
    cases hv : h'.child? c key with
    | none =>
      rw [hv] at hd
      cases hd
    | some v =>
      rw [hv] at hd
      exact ⟨v, rfl, hd⟩
  have hvalue : ∀ key v, h'.child? c key = some v → v ∈ values := by
    intro key v hv
    obtain ⟨i, hi, -⟩ := hchild key v hv
    exact List.mem_of_getElem? hi
  have hall' : ∀ v ∈ values, ∀ keys, h₁.containerAlong? v keys = h'.containerAlong? v keys :=
    fun v hv keys => (hg'.agreeBelow hr (hknown v hv)).containerAlong? keys
  have holder : ∀ key keys d, h'.containerAlong? c.value (key :: keys) = some d → h₁.Known d := by
    intro key keys d hd
    obtain ⟨v, hv, hd⟩ := hbelow key keys d hd
    rw [← hall' v (hvalue key v hv)] at hd
    exact hr.known_of_containerAlong? (hknown v (hvalue key v hv)) hd
  have hself : ∀ d, h'.containerAlong? c.value [] = some d → d = c := by
    intro d hd
    rw [containerAlong?_nil] at hd
    cases c <;> exact (Option.some.inj hd).symm
  constructor
  · intro keys d hd
    cases keys with
    | nil =>
      obtain rfl := hself d hd
      exact fun hk => hnew (hg.known d hk)
    | cons key keys =>
      obtain ⟨v, hv, hd⟩ := hbelow key keys d hd
      rw [← hall' v (hvalue key v hv)] at hd
      exact (hall.each v (hvalue key v hv)).new keys d hd
  · intro keys keys' d hd hd'
    cases keys with
    | nil =>
      obtain rfl := hself d hd
      cases keys' with
      | nil => rfl
      | cons key' keys' => exact absurd (holder key' keys' d hd') hnew
    | cons key keys =>
      cases keys' with
      | nil =>
        obtain rfl := hself d hd'
        exact absurd (holder key keys d hd) hnew
      | cons key' keys' =>
        obtain ⟨v, hv, hd⟩ := hbelow key keys d hd
        obtain ⟨w, hw, hd'⟩ := hbelow key' keys' d hd'
        obtain ⟨i, hi, hkey⟩ := hchild key v hv
        obtain ⟨j, hj, hkey'⟩ := hchild key' w hw
        rw [← hall' v (hvalue key v hv)] at hd
        rw [← hall' w (hvalue key' w hw)] at hd'
        obtain rfl := hall.apart i j v w keys keys' d hi hj hd hd'
        obtain rfl := hP key key' i hkey hkey'
        obtain rfl : v = w := Option.some.inj (hi.symm.trans hj)
        rw [(hall.each v (hvalue key v hv)).unshared keys keys' d hd hd']

/-! ## Placing -/

theorem Fresh.addObject {h₁ : Heap} {entries : List (String × Value)} (hg : h.Grows h₁)
    (hr : h₁.AtRest) (hknown : ∀ v ∈ entries.map Prod.snd, v.Known h₁)
    (hall : AllFresh h h₁ (entries.map Prod.snd)) :
    Fresh h (h₁.addObject (.ofList entries)).2 (.object (h₁.addObject (.ofList entries)).1) := by
  let id := (h₁.addObject (.ofList entries)).1
  refine Fresh.container (c := .object id)
    (P := fun key i => key = .field ((entries[i]?.map Prod.fst).getD "")) ?_ hg hr hknown
    (addObject_grows h₁ _) hall ?_ ?_
  · rintro key key' i rfl rfl
    rfl
  · exact Nat.lt_irrefl _
  · intro key v hv
    cases key with
    | item index => cases hv
    | field name =>
      rw [child?, fields, object_addObject, if_pos (show id.index = h₁.objects.size from rfl)] at hv
      obtain ⟨i, hi⟩ := List.getElem?_of_mem (get?_ofList hv)
      exact ⟨i, by simp [hi], by simp [hi]⟩

theorem Fresh.addArray {h₁ : Heap} {values : List Value} (hg : h.Grows h₁)
    (hr : h₁.AtRest) (hknown : ∀ v ∈ values, v.Known h₁) (hall : AllFresh h h₁ values) :
    Fresh h (h₁.addArray values).2 (.array (h₁.addArray values).1) := by
  let id := (h₁.addArray values).1
  refine Fresh.container (c := .array id) (P := fun key i => key = .item i) ?_ hg hr hknown
    (addArray_grows h₁ _) hall ?_ ?_
  · rintro key key' i rfl rfl
    rfl
  · exact Nat.lt_irrefl _
  · intro key v hv
    cases key with
    | field name => cases hv
    | item index =>
      rw [child?, items, array_addArray, if_pos (show id.index = h₁.arrays.size from rfl)] at hv
      exact ⟨index, hv, rfl⟩

theorem known_empty {c : Container} : ¬ empty.Known c := by
  cases c <;> exact Nat.not_lt_zero _

/-- In the empty heap no container is known, so a known value is a plain one. -/
theorem container?_of_known_empty {value : Value} (hv : value.Known empty) :
    value.container? = none := by
  cases hc : value.container? with
  | none => rfl
  | some c => exact absurd (hv c hc) known_empty

theorem empty_grows (h : Heap) : empty.Grows h :=
  ⟨fun _ hc => absurd hc known_empty, fun _ hc => absurd hc known_empty⟩

mutual

/-- A datum that takes over no container is placed without sharing. -/
theorem place_fresh {h : Heap} (hr : h.AtRest) :
    ∀ {d : Datum}, d.Known empty → Fresh h (h.place d).2 (h.place d).1
  | .object entries, hd => by
    have hp := placeFields_spec hr (Datum.FieldsKnown.grows (empty_grows h) hd)
    rw [place]
    exact Fresh.addObject hp.grows hp.atRest hp.known (placeFields_fresh hr hd)
  | .array items, hd => by
    have hp := placeItems_spec hr (Datum.ItemsKnown.grows (empty_grows h) hd)
    rw [place]
    exact Fresh.addArray hp.grows hp.atRest hp.known (placeItems_fresh hr hd)
  | .held value, hd => Fresh.plain (container?_of_known_empty hd)
  | .undefined, _ | .null, _ | .bool _, _ | .number _, _ | .text _, _ | .function _, _ =>
    Fresh.plain rfl

theorem placeItems_fresh {h : Heap} (hr : h.AtRest) :
    ∀ {ds : List Datum}, Datum.ItemsKnown empty ds →
      AllFresh h (h.placeItems ds).2 (h.placeItems ds).1
  | [], _ => ⟨nofun, nofun⟩
  | d :: ds, hd => by
    have hfirst := place_spec hr (Datum.Known.grows (empty_grows h) hd.1)
    have hrest := placeItems_spec hfirst.atRest (Datum.ItemsKnown.grows (empty_grows _) hd.2)
    rw [placeItems]
    exact AllFresh.cons hfirst.grows hfirst.atRest hfirst.known hrest.grows (place_fresh hr hd.1)
      (placeItems_fresh hfirst.atRest hd.2)

theorem placeFields_fresh {h : Heap} (hr : h.AtRest) :
    ∀ {ds : List (String × Datum)}, Datum.FieldsKnown empty ds →
      AllFresh h (h.placeFields ds).2 ((h.placeFields ds).1.map Prod.snd)
  | [], _ => ⟨nofun, nofun⟩
  | (name, d) :: ds, hd => by
    have hfirst := place_spec hr (Datum.Known.grows (empty_grows h) hd.1)
    have hrest := placeFields_spec hfirst.atRest (Datum.FieldsKnown.grows (empty_grows _) hd.2)
    rw [placeFields]
    exact AllFresh.cons hfirst.grows hfirst.atRest hfirst.known hrest.grows (place_fresh hr hd.1)
      (placeFields_fresh hfirst.atRest hd.2)

end

end Heap

end ReactiveTemplate
