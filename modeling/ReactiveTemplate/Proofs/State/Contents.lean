import Mathlib.Data.String.Basic
import ReactiveTemplate.Proofs.State.Writes

/-!
# The contents that writes leave

What a container holds after a write: all of its other keys are as before, and an operation on
an array is the operation on the list of its items.

* `Heap.Has`: a write that changes nothing.
* `Heap.Stores`, `Store.setKey_cases`: a value is stored at a key, and all else is as before.
* `Items.StablySorted`, `Items.sortBy_stablySorted`: what a stable sort gives.
* `ArrayEdit.Yields`, `ArrayEdit.items_yields`: the list operations.
-/

namespace ReactiveTemplate

/-! ## Keys of containers -/

/-- An object has fields, an array has items. -/
def Key.Fits : Key → Container → Prop
  | .field _, .object _ | .item _, .array _ => True
  | _, _ => False

/-- The write of a value at a key. -/
def Key.write (value : Value) : Key → ViewWrite
  | .field name => .setField name value
  | .item index => .setItem index value

/-- Writes a value at a key of the container behind a view. -/
def Store.setKey (s : Store) (id : ViewId) (key : Key) (value : Value) : Written Bool :=
  match s.container id, key with
  | .object object, .field name => s.setField id object name value
  | .array array, .item index => s.setItem id array index value
  | _, _ => ⟨s, false, none⟩

namespace Heap

/-- The value lies at a key already, or it is `undefined` and nothing lies there. -/
def Has (h : Heap) (c : Container) (key : Key) (value : Value) : Prop :=
  match h.child? c key with
  | some old => old.strictEquals value = true
  | none => value = .undefined

/-- The keys between the end of an array and an item that is written behind it. -/
def Pads (h : Heap) (c : Container) (key other : Key) : Prop :=
  ∃ id index place, c = .array id ∧ key = .item index ∧ other = .item place ∧
    (h.items id).length ≤ place ∧ place < index

/-- A value was stored at a key of a container, and nothing else was changed, except that an
    array is padded with `undefined` up to the key. A new field comes after the others. -/
structure Stores (h h' : Heap) (c : Container) (key : Key) (value : Value) : Prop where
  stored : h'.child? c key = some value
  padded : ∀ other, h.Pads c key other → h'.child? c other = some .undefined
  others : ∀ other, other ≠ key → ¬ h.Pads c key other → h'.child? c other = h.child? c other
  names : ∀ id name, c = .object id → key = .field name → (h'.fields id).keys =
    if name ∈ (h.fields id).keys then (h.fields id).keys else (h.fields id).keys ++ [name]
  elsewhere : h.AgreeOff h' c

end Heap

/-! ## Single writes -/

theorem Value.strictEquals_undefined (value : Value) :
    value.strictEquals .undefined = true ↔ value = .undefined := by
  cases value <;> simp [strictEquals]

theorem Store.isUnchanged_child? (h : Heap) (c : Container) (key : Key) (value : Value) :
    isUnchanged (h.child? c key) value = true ↔ h.Has c key value := by
  unfold isUnchanged Heap.Has
  cases h.child? c key with
  | none => exact value.strictEquals_undefined
  | some old => exact Iff.rfl

theorem Heap.stores_setFields {h : Heap} {id : ObjectId} (hk : h.Known (.object id))
    (name : String) (value : Value) :
    h.Stores (h.setFields id ((h.fields id).insert name value)) (.object id) (.field name)
      value := by
  have hfields : (h.setFields id ((h.fields id).insert name value)).fields id =
      (h.fields id).insert name value := by
    rw [fields_setFields, if_pos hk]
  refine ⟨?_, ?_, ?_, ?_, h.agreeOff_setFields id _⟩
  · rw [child?, hfields, Fields.get?_insert, if_pos rfl]
  · rintro other ⟨_, _, _, ⟨⟩, _⟩
  · rintro (other | index) hne -
    · have hother : other ≠ name := fun heq => hne (heq ▸ rfl)
      rw [child?, child?, hfields, Fields.get?_insert, if_neg hother]
    · rfl
  · rintro _ _ ⟨⟩ ⟨⟩
    rw [hfields, Fields.keys_insert]

theorem Store.getElem?_putItem (items : List Value) (index : Nat) (value : Value) (place : Nat) :
    (putItem items index value)[place]? =
      if place = index then some value
      else if items.length ≤ place ∧ place < index then some .undefined
      else items[place]? := by
  by_cases hplace : place = index
  · subst hplace
    have hlength : place < (items ++ List.replicate (place + 1 - items.length)
        Value.undefined).length := by
      rw [List.length_append, List.length_replicate]
      omega
    rw [if_pos rfl, putItem, List.getElem?_set_self hlength]
  · rw [if_neg hplace, putItem, List.getElem?_set_ne (Ne.symm hplace), List.getElem?_append,
      List.getElem?_replicate]
    by_cases hold : place < items.length
    · rw [if_pos hold, if_neg (by omega)]
    · rw [if_neg hold]
      by_cases hpad : place < index
      · rw [if_pos (by omega), if_pos (by omega)]
      · rw [if_neg (by omega), if_neg (by omega), List.getElem?_eq_none (by omega)]

theorem Heap.stores_setItems {h : Heap} {id : ArrayId} (hk : h.Known (.array id)) (index : Nat)
    (value : Value) :
    h.Stores (h.setItems id (Store.putItem (h.items id) index value)) (.array id) (.item index)
      value := by
  have hitems : (h.setItems id (Store.putItem (h.items id) index value)).items id =
      Store.putItem (h.items id) index value := by
    rw [items_setItems, if_pos hk]
  refine ⟨?_, ?_, ?_, ?_, h.agreeOff_setItems id _⟩
  · rw [child?, hitems, Store.getElem?_putItem, if_pos rfl]
  · rintro _ ⟨_, _, place, ⟨⟩, ⟨⟩, rfl, hend, hlt⟩
    rw [child?, hitems, Store.getElem?_putItem, if_neg (by omega), if_pos ⟨hend, hlt⟩]
  · rintro (name | place) hne hpads
    · rfl
    · have hplace : place ≠ index := fun heq => hne (heq ▸ rfl)
      have hpad : ¬ ((h.items id).length ≤ place ∧ place < index) := fun hpad =>
        hpads ⟨id, index, place, rfl, rfl, rfl, hpad⟩
      rw [child?, child?, hitems, Store.getElem?_putItem, if_neg hplace, if_neg hpad]
  · rintro _ _ ⟨⟩

namespace Store

variable {s : Store} {id : ViewId} {key : Key}

/-- A write at a key as one of the writes through a view. -/
theorem setKey_apply (hfits : key.Fits (s.container id)) (value : Value) :
    (key.write value).apply s id =
      some ⟨(s.setKey id key value).store, (), (s.setKey id key value).changed⟩ := by
  cases hc : s.container id with
  | object object =>
    cases key with
    | field name => simp only [Key.write, ViewWrite.apply, setKey, hc]
    | item index => simp [hc, Key.Fits] at hfits
  | array array =>
    cases key with
    | field name => simp [hc, Key.Fits] at hfits
    | item index => simp only [Key.write, ViewWrite.apply, setKey, hc]

theorem setKey_of_not_fits (hfits : ¬ key.Fits (s.container id)) (value : Value) :
    s.setKey id key value = ⟨s, false, none⟩ := by
  cases hc : s.container id with
  | object object =>
    cases key with
    | field name => simp [hc, Key.Fits] at hfits
    | item index => simp only [setKey, hc]
  | array array =>
    cases key with
    | field name => simp only [setKey, hc]
    | item index => simp [hc, Key.Fits] at hfits

/-- What a write at a key does that stores its value. -/
structure StoresKey (s : Store) (id : ViewId) (key : Key) (value : Value) (w : Written Bool) :
    Prop where
  stores : s.heap.Stores w.store.heap (s.container id) key value
  result : w.result = true
  reported : w.changed = some (childPath (s.path id) key.name)

/-- A write at a key does nothing where the value lies already, and stores it otherwise. -/
theorem setKey_cases (hid : id.index < s.views.size) (hk : s.heap.Known (s.container id))
    (hfits : key.Fits (s.container id)) (value : Value) :
    (s.heap.Has (s.container id) key value → s.setKey id key value = ⟨s, false, none⟩) ∧
      (¬ s.heap.Has (s.container id) key value →
        s.StoresKey id key value (s.setKey id key value)) := by
  rw [← isUnchanged_child?]
  cases hc : s.container id with
  | object object =>
    cases key with
    | item index => simp [hc, Key.Fits] at hfits
    | field name =>
      rw [hc] at hk
      have hstores := Heap.stores_setFields hk name value
      let heap := s.heap.setFields object ((s.heap.fields object).insert name value)
      have hviews := extends_setChildren { s with heap := heap } id
        ((s.view id).children.erase name)
      simp only [setKey, hc, setField, Heap.child?]
      refine ⟨fun hsame => if_pos hsame, fun hsame => ?_⟩
      rw [if_neg hsame]
      exact ⟨hc ▸ hstores, rfl, congrArg (fun path => some (childPath path name))
        (hviews.path id hid)⟩
  | array array =>
    cases key with
    | field name => simp [hc, Key.Fits] at hfits
    | item index =>
      rw [hc] at hk
      have hstores := Heap.stores_setItems hk index value
      let heap := s.heap.setItems array (putItem (s.heap.items array) index value)
      have hviews := extends_setChildren { s with heap := heap } id
        ((s.view id).children.erase (Nat.repr index))
      simp only [setKey, hc, setItem, Heap.child?]
      refine ⟨fun hsame => if_pos hsame, fun hsame => ?_⟩
      rw [if_neg hsame]
      exact ⟨hc ▸ hstores, rfl, congrArg (fun path => some (childPath path (Nat.repr index)))
        (hviews.path id hid)⟩

end Store

/-! ## Sorting -/

namespace Items

/-- An order of values: any two can be compared, and the comparisons agree with each other. -/
structure Orders (le : Value → Value → Bool) : Prop where
  total : ∀ a b, (le a b || le b a) = true
  trans : ∀ a b c, le a b = true → le b c = true → le a c = true

/-- Whether two values are equal in an order. -/
def ties (le : Value → Value → Bool) (a b : Value) : Bool := le a b && le b a

/-- The values of a list in order, where those that are equal are in the order of the list. -/
structure StablySorted (le : Value → Value → Bool) (before after : List Value) : Prop where
  perm : after.Perm before
  ordered : after.Pairwise fun a b => le a b = true
  stable : ∀ value, after.filter (ties le value) = before.filter (ties le value)

variable {le : Value → Value → Bool}

/-- Equal values are in order as they stand, so sorting does not move them. -/
theorem sortBy_stablySorted (hle : Orders le) (items : List Value) :
    StablySorted le items (sortBy le items).1 := by
  have hperm : (items.mergeSort le).Perm items := List.mergeSort_perm items le
  refine ⟨hperm, List.pairwise_mergeSort hle.trans hle.total items, fun value => ?_⟩
  have hties : (items.filter (ties le value)).Pairwise fun a b => le a b = true := by
    refine List.pairwise_of_forall_mem_list fun a ha b hb => ?_
    have hvalue : ties le value a = true ∧ ties le value b = true :=
      ⟨(List.mem_filter.1 ha).2, (List.mem_filter.1 hb).2⟩
    simp only [ties, Bool.and_eq_true] at hvalue
    exact hle.trans a value b hvalue.1.2 hvalue.2.1
  have hsublist : (items.filter (ties le value)).Sublist (items.mergeSort le) :=
    List.sublist_mergeSort hle.trans hle.total hties List.filter_sublist
  have hfilter := hsublist.filter (ties le value)
  simp only [List.filter_filter, Bool.and_self] at hfilter
  exact (hfilter.eq_of_length (hperm.filter _).length_eq.symm).symm

theorem displayOrder_iff (h : Heap) (a b : Value) :
    displayOrder h a b = true ↔ b = .undefined ∨ (a ≠ .undefined ∧ a.display h ≤ b.display h) := by
  cases b <;> cases a <;> simp [displayOrder]

theorem displayOrder_orders (h : Heap) : Orders (displayOrder h) := by
  constructor
  · intro a b
    rw [Bool.or_eq_true, displayOrder_iff, displayOrder_iff]
    by_cases ha : a = .undefined
    · exact .inr (.inl ha)
    · by_cases hb : b = .undefined
      · exact .inl (.inl hb)
      · exact (le_total (a.display h) (b.display h)).imp (fun hle => .inr ⟨ha, hle⟩)
          fun hle => .inr ⟨hb, hle⟩
  · intro a b c hab hbc
    rw [displayOrder_iff] at hab hbc ⊢
    rcases hbc with hc | ⟨hb, hbc⟩
    · exact .inl hc
    · rcases hab with hb' | ⟨ha, hab⟩
      · exact absurd hb' hb
      · exact .inr ⟨ha, hab.trans hbc⟩

end Items

/-! ## Operations on all items -/

/-- What an operation does to the list of the items. A splice takes out what lies between two
    places, neither of them behind the end. An order of its own that contradicts itself sorts the
    items in some way. -/
def ArrayEdit.Yields (h : Heap) (before after : List Value) : ArrayEdit → Prop
  | .push value => after = before ++ [value]
  | .pop => after = before.dropLast
  | .shift => after = before.tail
  | .unshift value => after = value :: before
  | .splice start count others =>
    let first := min start before.length
    let last := min (first + count) before.length
    after = before.take first ++ others ++ before.drop last
  | .sort => Items.StablySorted (Items.displayOrder h) before after
  | .sortBy le => after.Perm before ∧ (Items.Orders le → Items.StablySorted le before after)
  | .reverse => after = before.reverse

/-- Does an operation on all items of the array behind a view. -/
def Store.edit (s : Store) (id : ViewId) (operation : ArrayEdit) : Written Unit :=
  ((ViewWrite.edit operation).apply s id).getD ⟨s, (), none⟩

theorem ArrayEdit.items_yields (h : Heap) (items : List Value) (operation : ArrayEdit) :
    operation.Yields h items (operation.items h items) := by
  cases operation with
  | splice start count others =>
    have htake : items.take (min start items.length) = items.take start := by
      rw [← List.take_eq_take_min]
    have hdrop : items.drop (min (min start items.length + count) items.length) =
        items.drop (start + count) := by
      rcases Nat.lt_or_ge (start + count) items.length with hlt | hge
      · congr 1
        omega
      · rw [List.drop_eq_nil_of_le (by omega), List.drop_eq_nil_of_le hge]
    simp only [Yields, htake, hdrop]
    simp only [ArrayEdit.items, Items.splice, List.drop_drop]
  | sort => exact Items.sortBy_stablySorted (Items.displayOrder_orders h) items
  | sortBy le => exact ⟨List.mergeSort_perm items le, fun hle => Items.sortBy_stablySorted hle items⟩
  | _ => rfl

/-- What an operation on an array of a store does. -/
structure Store.EditsArray (s : Store) (id : ViewId) (array : ArrayId) (operation : ArrayEdit)
    (w : Written Unit) : Prop where
  yields : operation.Yields (s.heap.setLocked true (.array array)) (s.heap.items array)
    (w.store.heap.items array)
  elsewhere : s.heap.AgreeOff w.store.heap (.array array)
  reported : w.changed = some (s.path id)

theorem Store.edit_editsArray {s : Store} {id : ViewId} {array : ArrayId}
    (hid : id.index < s.views.size) (hc : s.container id = .array array)
    (hk : s.heap.Known (.array array)) (operation : ArrayEdit) :
    s.EditsArray id array operation (s.edit id operation) := by
  let locked := s.heap.setLocked true (.array array)
  let items := operation.items locked (s.heap.items array)
  have hedit : s.edit id operation =
      s.editItems id array fun items => (operation.items locked items, ()) := by
    simp only [edit, ViewWrite.apply, hc, Option.getD_some, locked]
  have hitems : (s.heap.setItems array items).items array = items := by
    rw [Heap.items_setItems, if_pos hk]
  have hviews := extends_setChildren { s with heap := s.heap.setItems array items } id .empty
  rw [hedit]
  refine ⟨?_, s.heap.agreeOff_setItems array items, congrArg some (hviews.path id hid)⟩
  have hyields := operation.items_yields locked (s.heap.items array)
  exact hitems ▸ hyields

end ReactiveTemplate
