import ReactiveTemplate.Proofs.State.Change
import ReactiveTemplate.Proofs.State.Growth
import ReactiveTemplate.Proofs.State.Views

/-!
# Writes through views

What a single write through a view changes, and which path it reports.

* `ViewWrite`, `ViewWrite.apply`: the writes of objects and arrays.
* `ViewWrite.apply_cases`: a write that changes something reports the path of its view,
  followed by the name of the step that was written.
* `ViewWrite.Spares`, `ViewWrite.Effect`: the properties that a write leaves alone.
* `Store.setPath_cases`: a write by a dotted path is a single write through a view.
-/

namespace ReactiveTemplate

/-- An operation on all items of an array. -/
inductive ArrayEdit where
  | push (value : Value)
  | pop
  | shift
  | unshift (value : Value)
  | splice (start count : Nat) (others : List Value)
  | sort
  | sortBy (le : Value → Value → Bool)
  | reverse

/-- The items after an operation. -/
def ArrayEdit.items (h : Heap) (items : List Value) : ArrayEdit → List Value
  | .push value => (Items.push value items).1
  | .pop => (Items.pop items).1
  | .shift => (Items.shift items).1
  | .unshift value => (Items.unshift value items).1
  | .splice start count others => (Items.splice start count others items).1
  | .sort => (Items.sortBy (Items.displayOrder h) items).1
  | .sortBy le => (Items.sortBy le items).1
  | .reverse => (Items.reverse items).1

/-- The values that an operation puts into an array. -/
def ArrayEdit.values : ArrayEdit → List Value
  | .push value | .unshift value => [value]
  | .splice _ _ others => others
  | .pop | .shift | .sort | .sortBy _ | .reverse => []

/-- A single write through a view. -/
inductive ViewWrite where
  | setField (name : String) (value : Value)
  | setItem (index : Nat) (value : Value)
  | edit (operation : ArrayEdit)

namespace ViewWrite

/-- Does a write through a view, if it fits the container of the view. -/
def apply (s : Store) (id : ViewId) (write : ViewWrite) : Option (Written Unit) :=
  match s.container id, write with
  | .object object, .setField name value =>
    let w := s.setField id object name value
    some ⟨w.store, (), w.changed⟩
  | .array array, .setItem index value =>
    let w := s.setItem id array index value
    some ⟨w.store, (), w.changed⟩
  | .array array, .edit operation =>
    some (s.editItems id array fun items =>
      (operation.items (s.heap.setLocked true (.array array)) items, ()))
  | _, _ => none

/-- The values that a write puts into a container. -/
def values : ViewWrite → List Value
  | .setField _ value | .setItem _ value => [value]
  | .edit operation => operation.values

/-- The step below the view that a write reports. -/
def step : ViewWrite → List Key
  | .setField name _ => [.field name]
  | .setItem index _ => [.item index]
  | .edit _ => []

/-- Whether a write leaves a property of the container alone that it is made to. An array
    has its length as the only property. -/
def Spares (h : Heap) (c : Container) (write : ViewWrite) (name : String) : Prop :=
  match write with
  | .setField other _ => name ≠ other
  | .setItem index _ => ∀ id, c = .array id → name = "length" → index < (h.items id).length
  | .edit _ => name ≠ "length"

end ViewWrite

/-! ## Containers with other contents -/

namespace Heap

variable {h : Heap}

theorem object_setFields (h : Heap) (id other : ObjectId) (fields : Fields Value) :
    (h.setFields id fields).object other =
      if id = other ∧ h.Known (.object id) then ⟨fields, (h.object other).locked⟩
      else h.object other := by
  obtain ⟨i⟩ := id
  obtain ⟨j⟩ := other
  simp only [setFields, object, Known, Array.getD_eq_getD_getElem?, Array.getElem?_modify,
    ObjectId.mk.injEq]
  by_cases hij : i = j
  · subst hij
    by_cases hi : i < h.objects.size <;> simp [hi]
  · simp [hij]

theorem array_setItems (h : Heap) (id other : ArrayId) (items : List Value) :
    (h.setItems id items).array other =
      if id = other ∧ h.Known (.array id) then ⟨items, (h.array other).locked⟩
      else h.array other := by
  obtain ⟨i⟩ := id
  obtain ⟨j⟩ := other
  simp only [setItems, array, Known, Array.getD_eq_getD_getElem?, Array.getElem?_modify,
    ArrayId.mk.injEq]
  by_cases hij : i = j
  · subst hij
    by_cases hi : i < h.arrays.size <;> simp [hi]
  · simp [hij]

theorem known_setFields {id : ObjectId} {fields : Fields Value} {c : Container} :
    (h.setFields id fields).Known c ↔ h.Known c := by
  cases c <;> simp [Known, setFields]

theorem known_setItems {id : ArrayId} {items : List Value} {c : Container} :
    (h.setItems id items).Known c ↔ h.Known c := by
  cases c <;> simp [Known, setItems]

theorem agreeOff_setFields (h : Heap) (id : ObjectId) (fields : Fields Value) :
    h.AgreeOff (h.setFields id fields) (.object id) := by
  intro c hc
  cases c with
  | object other =>
    have hne : ¬ (id = other ∧ h.Known (.object id)) := fun hand => hc (hand.1 ▸ rfl)
    rw [Agree, object_setFields, if_neg hne]
  | array other => rfl

theorem agreeOff_setItems (h : Heap) (id : ArrayId) (items : List Value) :
    h.AgreeOff (h.setItems id items) (.array id) := by
  intro c hc
  cases c with
  | object other => rfl
  | array other =>
    have hne : ¬ (id = other ∧ h.Known (.array id)) := fun hand => hc (hand.1 ▸ rfl)
    rw [Agree, array_setItems, if_neg hne]

theorem isLocked_setFields (h : Heap) (id : ObjectId) (fields : Fields Value) (c : Container) :
    (h.setFields id fields).isLocked c = h.isLocked c := by
  cases c with
  | object other =>
    rw [isLocked, object_setFields]
    split <;> rfl
  | array other => rfl

theorem isLocked_setItems (h : Heap) (id : ArrayId) (items : List Value) (c : Container) :
    (h.setItems id items).isLocked c = h.isLocked c := by
  cases c with
  | object other => rfl
  | array other =>
    rw [isLocked, array_setItems]
    split <;> rfl

theorem fields_setFields (h : Heap) (id : ObjectId) (fields : Fields Value) :
    (h.setFields id fields).fields id = if h.Known (.object id) then fields else h.fields id := by
  rw [Heap.fields, object_setFields]
  by_cases hk : h.Known (.object id) <;> simp [hk, Heap.fields]

theorem items_setItems (h : Heap) (id : ArrayId) (items : List Value) :
    (h.setItems id items).items id = if h.Known (.array id) then items else h.items id := by
  rw [Heap.items, array_setItems]
  by_cases hk : h.Known (.array id) <;> simp [hk, Heap.items]

theorem AtRest.setFields (hr : h.AtRest) {id : ObjectId} {fields : Fields Value}
    (hfields : ∀ name value, fields.get? name = some value → value.Known h) :
    (h.setFields id fields).AtRest := by
  have hknown : ∀ value : Value, value.Known h → value.Known (h.setFields id fields) :=
    fun value hv c hc => known_setFields.2 (hv c hc)
  constructor
  · intro c
    rw [isLocked_setFields]
    exact hr.unlocked c
  · intro c key value hvalue
    apply hknown
    by_cases hc : c = .object id
    · subst hc
      cases key with
      | field name =>
        rw [child?, fields_setFields] at hvalue
        split at hvalue
        · exact hfields name value hvalue
        · exact hr.closed (.object id) (.field name) value hvalue
      | item index => cases hvalue
    · rw [← (agreeOff_setFields h id fields c hc).child?] at hvalue
      exact hr.closed c key value hvalue

theorem AtRest.setItems (hr : h.AtRest) {id : ArrayId} {items : List Value}
    (hitems : ∀ value ∈ items, value.Known h) : (h.setItems id items).AtRest := by
  have hknown : ∀ value : Value, value.Known h → value.Known (h.setItems id items) :=
    fun value hv c hc => known_setItems.2 (hv c hc)
  constructor
  · intro c
    rw [isLocked_setItems]
    exact hr.unlocked c
  · intro c key value hvalue
    apply hknown
    by_cases hc : c = .array id
    · subst hc
      cases key with
      | field name => cases hvalue
      | item index =>
        rw [child?, items_setItems] at hvalue
        split at hvalue
        · exact hitems value (List.mem_of_getElem? hvalue)
        · exact hr.closed (.array id) (.item index) value hvalue
    · rw [← (agreeOff_setItems h id items c hc).child?] at hvalue
      exact hr.closed c key value hvalue

theorem AtRest.fields (hr : h.AtRest) {id : ObjectId} {name : String} {value : Value}
    (hget : (h.fields id).get? name = some value) : value.Known h :=
  hr.closed (.object id) (.field name) value hget

theorem AtRest.items (hr : h.AtRest) {id : ArrayId} {value : Value}
    (hvalue : value ∈ h.items id) : value.Known h := by
  obtain ⟨index, hindex⟩ := List.getElem?_of_mem hvalue
  exact hr.closed (.array id) (.item index) value hindex

end Heap

/-! ## Single writes -/

namespace ViewWrite

/-- What a write does that changes something. -/
structure Effect (s : Store) (id : ViewId) (write : ViewWrite) (w : Written Unit) : Prop where
  reported : w.changed = some ((write.step.map Key.name).foldl childPath (s.path id))
  sound : w.store.Sound
  views : ({ s with heap := w.store.heap } : Store).Extends w.store
  agreeOff : s.heap.AgreeOff w.store.heap (s.container id)
  locks : ∀ c, w.store.heap.isLocked c = s.heap.isLocked c
  known : ∀ c, w.store.heap.Known c ↔ s.heap.Known c
  spared : ∀ name, write.Spares s.heap (s.container id) name →
    s.heap.SameProperty w.store.heap (s.container id) name
  atRest : s.heap.AtRest → (∀ value ∈ write.values, value.Known s.heap) → w.store.heap.AtRest

variable {s : Store} {id : ViewId}

theorem sameProperty_setFields (h : Heap) (object : ObjectId) {fields : Fields Value}
    {name : String} (hname : fields.get? name = (h.fields object).get? name) :
    h.SameProperty (h.setFields object fields) (.object object) name := by
  intro walked
  have hlocked : ((h.setFields object fields).object object).locked = (h.object object).locked :=
    h.isLocked_setFields object fields (.object object)
  simp only [Container.value, property, hlocked, Heap.fields_setFields]
  split
  · rfl
  · split
    · rw [hname]
    · rfl

theorem sameProperty_setItems (h : Heap) (array : ArrayId) {items : List Value} {name : String}
    (hname : name = "length" → items.length = (h.items array).length) :
    h.SameProperty (h.setItems array items) (.array array) name := by
  intro walked
  have hlocked : ((h.setItems array items).array array).locked = (h.array array).locked :=
    h.isLocked_setItems array items (.array array)
  simp only [Container.value, property, hlocked, Heap.items_setItems]
  split
  · next heq =>
    split
    · rfl
    · split
      · rw [hname heq]
      · rfl
  · rfl

theorem setField_effect (hs : s.Sound) (hid : id.index < s.views.size) {object : ObjectId}
    (hc : s.container id = .object object) (name : String) (value : Value) :
    ((s.setField id object name value).store = s ∧
        (s.setField id object name value).changed = none) ∨
      Effect s id (.setField name value)
        ⟨(s.setField id object name value).store, (), (s.setField id object name value).changed⟩ := by
  rw [Store.setField]
  dsimp only
  split
  · exact .inl ⟨rfl, rfl⟩
  · refine .inr ?_
    let fields := (s.heap.fields object).insert name value
    let t : Store := { s with heap := s.heap.setFields object fields }
    have ht : t.Sound := hs.withHeap _
    refine ⟨?_, ht.setChildren ?_, Store.extends_setChildren t id _, ?_, ?_, ?_, ?_, ?_⟩
    · exact congrArg (fun path => some (childPath path _))
        ((Store.extends_setChildren t id _).path id hid)
    · intro other child hchild
      rw [Fields.get?_erase] at hchild
      split at hchild
      · cases hchild
      · exact hs.child id hid other child hchild
    · rw [hc]
      exact s.heap.agreeOff_setFields object fields
    · exact s.heap.isLocked_setFields object fields
    · exact fun c => Heap.known_setFields
    · intro other hother
      rw [hc]
      refine sameProperty_setFields s.heap object ?_
      rw [Fields.get?_insert, if_neg hother]
    · intro hr hvalues
      refine hr.setFields fun other found hfound => ?_
      rw [Fields.get?_insert] at hfound
      split at hfound
      · exact Option.some.inj hfound ▸ hvalues value (by simp [values])
      · exact hr.fields hfound

theorem length_putItem (items : List Value) (index : Nat) (value : Value) :
    (Store.putItem items index value).length = max items.length (index + 1) := by
  simp only [Store.putItem, List.length_set, List.length_append, List.length_replicate]
  omega

theorem mem_putItem {items : List Value} {index : Nat} {value found : Value}
    (h : found ∈ Store.putItem items index value) :
    found ∈ items ∨ found = value ∨ found = .undefined := by
  rcases List.mem_or_eq_of_mem_set h with h | h
  · rcases List.mem_append.1 h with h | h
    · exact .inl h
    · exact .inr (.inr (List.eq_of_mem_replicate h))
  · exact .inr (.inl h)

theorem known_undefined (h : Heap) : Value.undefined.Known h := by
  rintro c ⟨⟩

theorem setItem_effect (hs : s.Sound) (hid : id.index < s.views.size) {array : ArrayId}
    (hc : s.container id = .array array) (index : Nat) (value : Value) :
    ((s.setItem id array index value).store = s ∧
        (s.setItem id array index value).changed = none) ∨
      Effect s id (.setItem index value)
        ⟨(s.setItem id array index value).store, (), (s.setItem id array index value).changed⟩ := by
  rw [Store.setItem]
  dsimp only
  split
  · exact .inl ⟨rfl, rfl⟩
  · refine .inr ?_
    let items := Store.putItem (s.heap.items array) index value
    let t : Store := { s with heap := s.heap.setItems array items }
    have ht : t.Sound := hs.withHeap _
    refine ⟨?_, ht.setChildren ?_, Store.extends_setChildren t id _, ?_, ?_, ?_, ?_, ?_⟩
    · exact congrArg (fun path => some (childPath path _))
        ((Store.extends_setChildren t id _).path id hid)
    · intro other child hchild
      rw [Fields.get?_erase] at hchild
      split at hchild
      · cases hchild
      · exact hs.child id hid other child hchild
    · rw [hc]
      exact s.heap.agreeOff_setItems array items
    · exact s.heap.isLocked_setItems array items
    · exact fun c => Heap.known_setItems
    · intro name hname
      rw [hc]
      refine sameProperty_setItems s.heap array fun heq => ?_
      have hlt := hname array hc heq
      rw [length_putItem]
      omega
    · intro hr hvalues
      refine hr.setItems fun found hfound => ?_
      rcases mem_putItem hfound with hold | rfl | rfl
      · exact hr.items hold
      · exact hvalues found (by simp [values])
      · exact known_undefined s.heap

/-- The items after an operation were there before, or are put there. -/
theorem mem_items {h : Heap} {items : List Value} {operation : ArrayEdit} {found : Value}
    (hfound : found ∈ operation.items h items) : found ∈ items ∨ found ∈ operation.values := by
  cases operation with
  | push value => simpa [ArrayEdit.items, ArrayEdit.values, Items.push] using hfound
  | pop => exact .inl (List.dropLast_subset _ hfound)
  | shift => exact .inl (List.mem_of_mem_tail hfound)
  | unshift value =>
    rcases List.mem_cons.1 hfound with rfl | hold
    · exact .inr (by simp [ArrayEdit.values])
    · exact .inl hold
  | splice start count others =>
    rcases List.mem_append.1 hfound with hfront | hback
    · rcases List.mem_append.1 hfront with hold | hnew
      · exact .inl (List.mem_of_mem_take hold)
      · exact .inr hnew
    · exact .inl (List.mem_of_mem_drop (List.mem_of_mem_drop hback))
  | sort => exact .inl (List.mem_mergeSort.1 hfound)
  | sortBy le => exact .inl (List.mem_mergeSort.1 hfound)
  | reverse => exact .inl (List.mem_reverse.1 hfound)

theorem edit_effect (hs : s.Sound) (hid : id.index < s.views.size) {array : ArrayId}
    (hc : s.container id = .array array) (h : Heap) (operation : ArrayEdit) :
    Effect s id (.edit operation)
      (s.editItems id array fun items => (operation.items h items, ())) := by
  let items := operation.items h (s.heap.items array)
  let t : Store := { s with heap := s.heap.setItems array items }
  have ht : t.Sound := hs.withHeap _
  refine ⟨?_, ht.setChildren ?_, Store.extends_setChildren t id _, ?_, ?_, ?_, ?_, ?_⟩
  · exact congrArg some ((Store.extends_setChildren t id _).path id hid)
  · intro other child hchild
    simp [Fields.empty, Fields.get?, findEntry] at hchild
  · rw [hc]
    exact s.heap.agreeOff_setItems array items
  · exact s.heap.isLocked_setItems array items
  · exact fun c => Heap.known_setItems
  · intro name hname
    rw [hc]
    exact sameProperty_setItems s.heap array fun heq => absurd heq hname
  · intro hr hvalues
    refine hr.setItems fun found hfound => ?_
    rcases mem_items hfound with hold | hnew
    · exact hr.items hold
    · exact hvalues found hnew

/-- A write changes nothing and reports nothing, or has its effect. -/
theorem apply_cases (hs : s.Sound) (hid : id.index < s.views.size) {write : ViewWrite}
    {w : Written Unit} (hw : write.apply s id = some w) :
    (w.store = s ∧ w.changed = none) ∨ Effect s id write w := by
  unfold apply at hw
  split at hw
  · next object name value hc =>
    obtain rfl := Option.some.inj hw
    exact setField_effect hs hid hc name value
  · next array index value hc =>
    obtain rfl := Option.some.inj hw
    exact setItem_effect hs hid hc index value
  · next array operation hc =>
    obtain rfl := Option.some.inj hw
    exact .inr (edit_effect hs hid hc _ operation)
  · cases hw

end ViewWrite

/-! ## Writes by path -/

theorem Text.cutAtLast?_of_not_mem {separator : Char} {cs : List Char} (h : separator ∉ cs) :
    cutAtLast? separator cs = none := by
  induction cs with
  | nil => rfl
  | cons c cs ih =>
    rw [List.mem_cons, not_or] at h
    rw [cutAtLast?, ih h.2]
    exact if_neg (Ne.symm h.1)

theorem Text.cutAtLast?_append {separator : Char} (before : List Char) {after : List Char}
    (h : separator ∉ after) :
    cutAtLast? separator (before ++ separator :: after) = some (before, after) := by
  induction before with
  | nil =>
    rw [List.nil_append, cutAtLast?, cutAtLast?_of_not_mem h]
    exact if_pos rfl
  | cons c before ih => rw [List.cons_append, cutAtLast?, ih]

/-- The last segment of a path of an expression is a name. -/
theorem Path.isIdentifier_splitLast {p : Path} (h : p.Grammatical) :
    Lexer.IsIdentifier (Store.splitLast p.dotted).2 := by
  obtain ⟨front, last, hsegments⟩ : ∃ front last, p.segments = front ++ [last] :=
    ⟨p.segments.dropLast, p.segments.getLast (by simp [segments]),
      (List.dropLast_concat_getLast _).symm⟩
  have hlast : Lexer.IsIdentifier last := h last (by simp [hsegments])
  have hdot := hlast.dot_not_mem
  rw [dotted_eq_pathOf h, hsegments, pathOf_append_singleton, childPath]
  by_cases hfront : pathOf front = ""
  · rw [if_pos hfront, Store.splitLast, Text.cutAtLast?_of_not_mem hdot]
    exact hlast
  · have hlist : (pathOf front ++ "." ++ last).toList = (pathOf front).toList ++ '.' :: last.toList := by
      simp
    rw [if_neg hfront, Store.splitLast, hlist, Text.cutAtLast?_append _ hdot]
    simpa using hlast

/-- A name is no index. -/
theorem Lexer.IsIdentifier.arrayIndex?_eq_none {name : String} (h : IsIdentifier name) :
    arrayIndex? name = none := by
  obtain ⟨c, cs, hname, hc, -⟩ := h
  have hplus : c ≠ '+' := by
    rintro rfl
    exact absurd hc (by decide)
  have hdigit : c.isDigit = false := isDigit_of_startsIdentifier hc
  rw [arrayIndex?, hname]
  refine if_neg fun hindex => ?_
  have hdigits := hindex.2.1
  split at hdigits
  · next heq => exact hplus (List.cons.inj heq).1
  · rw [List.all_cons, hdigit, Bool.false_and] at hdigits
    cases hdigits

/-- A write by a dotted path fails and leaves no more than further views, or it is a single
    write of one field or item through a view. -/
theorem Store.setPath_cases {s : Store} (hs : s.Sound) {id : ViewId} (hid : id.index < s.views.size)
    (path : String) (value : Value) :
    (s.Extends (s.setPath id path value).store ∧ (s.setPath id path value).store.Sound ∧
        (s.setPath id path value).changed = none) ∨
      ∃ (s₁ : Store) (found : ViewId) (keys : List Key) (write : ViewWrite) (w : Written Unit),
        s.Leads s₁ id found keys ∧ write.apply s₁ found = some w ∧ write.values = [value] ∧
        (∀ index other, write = .setItem index other →
          arrayIndex? (splitLast path).2 = some index) ∧
        (s.setPath id path value).store = w.store ∧
        (s.setPath id path value).changed = w.changed := by
  have hread := getPath_spec hs hid (splitLast path).1
  rw [setPath]
  dsimp only
  split
  · exact .inl ⟨Extends.refl s, hs, rfl⟩
  · cases hget : s.getPath id (splitLast path).1 with
    | mk read s₁ =>
      rw [hget] at hread
      cases read with
      | error e => exact .inl ⟨hread.extends', hread.sound, rfl⟩
      | ok found =>
        cases found with
        | value v => exact .inl ⟨hread.extends', hread.sound, rfl⟩
        | view found =>
          have hleads := hread.view found rfl
          dsimp only
          cases hc : s₁.container found with
          | object object =>
            let w := s₁.setField found object (splitLast path).2 value
            refine .inr ⟨s₁, found, _, .setField (splitLast path).2 value,
              ⟨w.store, (), w.changed⟩, hleads, ?_, rfl, fun index other hset => (by cases hset),
              rfl, rfl⟩
            simp only [ViewWrite.apply, hc, w]
          | array array =>
            dsimp only
            cases hindex : s₁.indexInto found (splitLast path).2 with
            | error e => exact .inl ⟨hread.extends', hread.sound, rfl⟩
            | ok index =>
              let w := s₁.setItem found array index value
              refine .inr ⟨s₁, found, _, .setItem index value, ⟨w.store, (), w.changed⟩, hleads,
                ?_, rfl, fun index' other hset => ?_, rfl, rfl⟩
              · simp only [ViewWrite.apply, hc, w]
              · obtain ⟨rfl, -⟩ := ViewWrite.setItem.inj hset
                rw [indexInto] at hindex
                cases hspelled : arrayIndex? (splitLast path).2 with
                | none =>
                  rw [hspelled] at hindex
                  cases hindex
                | some index =>
                  rw [hspelled] at hindex
                  rw [Except.ok.inj hindex]

end ReactiveTemplate
