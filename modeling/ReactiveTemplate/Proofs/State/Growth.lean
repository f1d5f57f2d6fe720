import Mathlib.Data.Nat.Basic
import Mathlib.Order.Basic
import ReactiveTemplate.Proofs.State.Places

/-!
# Heaps that grow

Placing a datum adds containers and leaves those that exist as they are.

* `Value.Known`, `Heap.AtRest`: references that mean something, and a heap of such with
  nothing being modified.
* `Heap.Grows`: a heap with further containers.
* `Heap.place_spec`: what placing a datum gives.
-/

namespace ReactiveTemplate

/-- A value refers to a container that exists, if to any. -/
def Value.Known (h : Heap) (value : Value) : Prop :=
  ∀ c, value.container? = some c → h.Known c

mutual

/-- The values that a datum takes over are known. -/
def Datum.Known (h : Heap) : Datum → Prop
  | .object entries => Datum.FieldsKnown h entries
  | .array items => Datum.ItemsKnown h items
  | .held value => value.Known h
  | _ => True

/-- The values that data take over are known. -/
def Datum.ItemsKnown (h : Heap) : List Datum → Prop
  | [] => True
  | d :: rest => d.Known h ∧ Datum.ItemsKnown h rest

/-- The values that named data take over are known. -/
def Datum.FieldsKnown (h : Heap) : List (String × Datum) → Prop
  | [] => True
  | (_, d) :: rest => d.Known h ∧ Datum.FieldsKnown h rest

end

namespace Heap

/-- Nothing is being modified, and every reference means something. -/
structure AtRest (h : Heap) : Prop where
  unlocked : ∀ c, h.isLocked c = false
  closed : ∀ c key value, h.child? c key = some value → value.Known h

/-- A heap with the containers of another one, and maybe more. -/
structure Grows (h h' : Heap) : Prop where
  known : ∀ c, h.Known c → h'.Known c
  agree : ∀ c, h.Known c → h.Agree h' c

variable {h h' h'' : Heap}

theorem Grows.refl (h : Heap) : h.Grows h := ⟨fun _ hc => hc, fun c _ => Agree.refl h c⟩

theorem Grows.trans (hg : h.Grows h') (hg' : h'.Grows h'') : h.Grows h'' :=
  ⟨fun c hc => hg'.known c (hg.known c hc),
    fun c hc => (hg.agree c hc).trans (hg'.agree c (hg.known c hc))⟩

theorem Grows.valueKnown (hg : h.Grows h') {value : Value} (hv : value.Known h) :
    value.Known h' :=
  fun c hc => hg.known c (hv c hc)

/-- In a heap at rest everything below a known value is known. -/
theorem AtRest.known_of_at? (hr : h.AtRest) {keys : List Key} :
    ∀ {value next : Value}, value.Known h → h.at? value keys = some next → next.Known h := by
  induction keys with
  | nil =>
    intro value next hv hnext
    rw [at?_nil, Option.some.injEq] at hnext
    exact hnext ▸ hv
  | cons key keys ih =>
    intro value next hv hnext
    rw [at?_cons, Option.bind_eq_some_iff] at hnext
    obtain ⟨c, hc, hnext⟩ := hnext
    obtain ⟨child, hchild, hnext⟩ := Option.bind_eq_some_iff.1 hnext
    exact ih (hr.closed c key child hchild) hnext

theorem AtRest.known_of_containerAlong? (hr : h.AtRest) {keys : List Key} {value : Value}
    (hv : value.Known h) {c : Container} (hc : h.containerAlong? value keys = some c) :
    h.Known c := by
  rw [containerAlong?, Option.bind_eq_some_iff] at hc
  obtain ⟨next, hnext, hc⟩ := hc
  exact hr.known_of_at? hv hnext c hc

/-- Growth changes nothing below a known value. -/
theorem Grows.agreeBelow (hg : h.Grows h') (hr : h.AtRest) {value : Value}
    (hv : value.Known h) : h.AgreeBelow h' value :=
  fun _ c hc => hg.agree c (hr.known_of_containerAlong? hv hc)

/-! ## Fresh containers -/

theorem object_addObject (h : Heap) (fields : Fields Value) (id : ObjectId) :
    (h.addObject fields).2.object id =
      if id.index = h.objects.size then ⟨fields, false⟩ else h.object id := by
  simp only [addObject, object, Array.getD_eq_getD_getElem?, Array.getElem?_push]
  split <;> rfl

theorem array_addArray (h : Heap) (items : List Value) (id : ArrayId) :
    (h.addArray items).2.array id =
      if id.index = h.arrays.size then ⟨items, false⟩ else h.array id := by
  simp only [addArray, array, Array.getD_eq_getD_getElem?, Array.getElem?_push]
  split <;> rfl

theorem addObject_grows (h : Heap) (fields : Fields Value) : h.Grows (h.addObject fields).2 := by
  constructor
  · intro c hc
    cases c with
    | object id => exact Nat.lt_of_lt_of_le hc (by simp [addObject])
    | array id => exact hc
  · intro c hc
    cases c with
    | object id =>
      have hne : id.index ≠ h.objects.size := Nat.ne_of_lt hc
      rw [Agree, object_addObject, if_neg hne]
    | array id => rfl

theorem addArray_grows (h : Heap) (items : List Value) : h.Grows (h.addArray items).2 := by
  constructor
  · intro c hc
    cases c with
    | object id => exact hc
    | array id => exact Nat.lt_of_lt_of_le hc (by simp [addArray])
  · intro c hc
    cases c with
    | object id => rfl
    | array id =>
      have hne : id.index ≠ h.arrays.size := Nat.ne_of_lt hc
      rw [Agree, array_addArray, if_neg hne]

theorem addFunction_grows (h : Heap) (script : Script) : h.Grows (h.addFunction script).2 :=
  ⟨fun _ hc => hc, fun c _ => by cases c <;> rfl⟩

theorem addObject_atRest (hr : h.AtRest) {fields : Fields Value}
    (hfields : ∀ name value, fields.get? name = some value → value.Known h) :
    (h.addObject fields).2.AtRest := by
  have hg := addObject_grows h fields
  constructor
  · intro c
    cases c with
    | object id =>
      rw [isLocked, object_addObject]
      split
      · rfl
      · exact hr.unlocked (.object id)
    | array id => exact hr.unlocked (.array id)
  · intro c key value hvalue
    cases c with
    | object id =>
      cases key with
      | field name =>
        rw [child?, Heap.fields, object_addObject] at hvalue
        split at hvalue
        · exact hg.valueKnown (hfields name value hvalue)
        · exact hg.valueKnown (hr.closed (.object id) (.field name) value hvalue)
      | item index => cases hvalue
    | array id =>
      have hsame : h.child? (.array id) key = some value := by
        rw [← hvalue]
        cases key <;> rfl
      exact hg.valueKnown (hr.closed (.array id) key value hsame)

theorem addArray_atRest (hr : h.AtRest) {items : List Value}
    (hitems : ∀ value ∈ items, value.Known h) : (h.addArray items).2.AtRest := by
  have hg := addArray_grows h items
  constructor
  · intro c
    cases c with
    | object id => exact hr.unlocked (.object id)
    | array id =>
      rw [isLocked, array_addArray]
      split
      · rfl
      · exact hr.unlocked (.array id)
  · intro c key value hvalue
    cases c with
    | object id =>
      have hsame : h.child? (.object id) key = some value := by
        rw [← hvalue]
        cases key <;> rfl
      exact hg.valueKnown (hr.closed (.object id) key value hsame)
    | array id =>
      cases key with
      | field name => cases hvalue
      | item index =>
        rw [child?, Heap.items, array_addArray] at hvalue
        split at hvalue
        · exact hg.valueKnown (hitems value (List.mem_of_getElem? hvalue))
        · exact hg.valueKnown (hr.closed (.array id) (.item index) value hvalue)

theorem addFunction_atRest (hr : h.AtRest) (script : Script) :
    (h.addFunction script).2.AtRest := by
  constructor
  · intro c
    cases c with
    | object id => exact hr.unlocked (.object id)
    | array id => exact hr.unlocked (.array id)
  · intro c key value hvalue
    have hsame : h.child? c key = some value := by
      rw [← hvalue]
      cases c <;> cases key <;> rfl
    exact (addFunction_grows h script).valueKnown (hr.closed c key value hsame)

theorem known_addObject (h : Heap) (fields : Fields Value) :
    (Value.object (h.addObject fields).1).Known (h.addObject fields).2 := by
  rintro c ⟨⟩
  simp [Known, addObject]

theorem known_addArray (h : Heap) (items : List Value) :
    (Value.array (h.addArray items).1).Known (h.addArray items).2 := by
  rintro c ⟨⟩
  simp [Known, addArray]

theorem empty_atRest : empty.AtRest := by
  constructor
  · intro c
    cases c <;> rfl
  · intro c key value hvalue
    have hnone : empty.child? c key = none := by
      cases c <;> cases key <;> rfl
    rw [hnone] at hvalue
    cases hvalue

/-- The fields of a list of entries are entries of the list. -/
theorem get?_ofList {α : Type} {entries : List (String × α)} {name : String} {value : α}
    (hget : (Fields.ofList entries).get? name = some value) : (name, value) ∈ entries := by
  have hfold : ∀ (entries : List (String × α)) (f : Fields α),
      (entries.foldl (fun f e => f.insert e.1 e.2) f).get? name = some value →
        f.get? name = some value ∨ (name, value) ∈ entries := by
    intro entries
    induction entries with
    | nil => intro f h; exact .inl h
    | cons entry entries ih =>
      intro f h
      rcases ih _ h with hf | hmem
      · rw [Fields.get?_insert] at hf
        split at hf
        · next heq =>
          rw [heq, ← Option.some.inj hf]
          exact .inr (by simp)
        · exact .inl hf
      · exact .inr (by simp [hmem])
  rcases hfold entries .empty hget with hempty | hentry
  · simp [Fields.empty, Fields.get?, findEntry] at hempty
  · exact hentry

/-! ## Placing -/

/-- What placing gives: a heap that has grown and is at rest, and a known value. -/
structure Placed (h h' : Heap) (value : Value) : Prop where
  grows : h.Grows h'
  atRest : h'.AtRest
  known : value.Known h'

/-- The same for the values of several data. -/
structure AllPlaced (h h' : Heap) (values : List Value) : Prop where
  grows : h.Grows h'
  atRest : h'.AtRest
  known : ∀ value ∈ values, value.Known h'

theorem Placed.plain (hr : h.AtRest) {value : Value} (hvalue : value.container? = none) :
    Placed h h value :=
  ⟨Grows.refl h, hr, fun c hc => by rw [hvalue] at hc; cases hc⟩

end Heap

mutual

theorem Datum.Known.grows {h h' : Heap} (hg : h.Grows h') : ∀ {d : Datum}, d.Known h → d.Known h'
  | .object _, hd => Datum.FieldsKnown.grows hg hd
  | .array _, hd => Datum.ItemsKnown.grows hg hd
  | .held _, hd => hg.valueKnown hd
  | .undefined, _ | .null, _ | .bool _, _ | .number _, _ | .text _, _ | .function _, _ => trivial

theorem Datum.ItemsKnown.grows {h h' : Heap} (hg : h.Grows h') :
    ∀ {ds : List Datum}, ItemsKnown h ds → ItemsKnown h' ds
  | [], _ => trivial
  | _ :: _, hd => ⟨Datum.Known.grows hg hd.1, Datum.ItemsKnown.grows hg hd.2⟩

theorem Datum.FieldsKnown.grows {h h' : Heap} (hg : h.Grows h') :
    ∀ {ds : List (String × Datum)}, FieldsKnown h ds → FieldsKnown h' ds
  | [], _ => trivial
  | _ :: _, hd => ⟨Datum.Known.grows hg hd.1, Datum.FieldsKnown.grows hg hd.2⟩

end

namespace Heap

mutual

theorem place_spec {h : Heap} (hr : h.AtRest) :
    ∀ {d : Datum}, d.Known h → Placed h (h.place d).2 (h.place d).1
  | .object entries, hd => by
    have hp := placeFields_spec hr hd
    rw [place]
    refine ⟨hp.grows.trans (addObject_grows _ _), addObject_atRest hp.atRest ?_, known_addObject _ _⟩
    intro name value hget
    exact hp.known value (List.mem_map_of_mem (f := Prod.snd) (get?_ofList hget))
  | .array items, hd => by
    have hp := placeItems_spec hr hd
    rw [place]
    exact ⟨hp.grows.trans (addArray_grows _ _), addArray_atRest hp.atRest hp.known,
      known_addArray _ _⟩
  | .function script, _ => by
    rw [place]
    refine ⟨addFunction_grows h script, addFunction_atRest hr script, ?_⟩
    rintro c ⟨⟩
  | .held _, hd => ⟨Grows.refl h, hr, hd⟩
  | .undefined, _ | .null, _ | .bool _, _ | .number _, _ | .text _, _ => Placed.plain hr rfl

theorem placeItems_spec {h : Heap} (hr : h.AtRest) :
    ∀ {ds : List Datum}, Datum.ItemsKnown h ds → AllPlaced h (h.placeItems ds).2 (h.placeItems ds).1
  | [], _ => ⟨Grows.refl h, hr, nofun⟩
  | d :: ds, hd => by
    have hfirst := place_spec hr hd.1
    have hrest := placeItems_spec hfirst.atRest (hd.2.grows hfirst.grows)
    rw [placeItems]
    refine ⟨hfirst.grows.trans hrest.grows, hrest.atRest, ?_⟩
    intro value hvalue
    rcases List.mem_cons.1 hvalue with rfl | hvalue
    · exact hrest.grows.valueKnown hfirst.known
    · exact hrest.known value hvalue

theorem placeFields_spec {h : Heap} (hr : h.AtRest) :
    ∀ {ds : List (String × Datum)}, Datum.FieldsKnown h ds →
      AllPlaced h (h.placeFields ds).2 ((h.placeFields ds).1.map Prod.snd)
  | [], _ => ⟨Grows.refl h, hr, nofun⟩
  | (name, d) :: ds, hd => by
    have hfirst := place_spec hr hd.1
    have hrest := placeFields_spec hfirst.atRest (hd.2.grows hfirst.grows)
    rw [placeFields]
    refine ⟨hfirst.grows.trans hrest.grows, hrest.atRest, ?_⟩
    intro value hvalue
    rcases List.mem_cons.1 hvalue with rfl | hvalue
    · exact hrest.grows.valueKnown hfirst.known
    · exact hrest.known value hvalue

end

end Heap

end ReactiveTemplate
