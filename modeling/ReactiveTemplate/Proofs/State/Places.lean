import Mathlib.Data.List.Perm.Subperm
import ReactiveTemplate.Value.Snapshot

/-!
# Places in a heap

Where a container lies below a value, and what can be read below a value in two heaps.

* `Key`, `Heap.child?`, `Heap.at?`: the steps below a container, and chains of them.
* `Heap.Agree`, `Heap.AgreeBelow`: two heaps hold the same in a container, and in all
  containers below a value.
* `Heap.AgreeBelow.snapshot`: what can be read of a value is then the same, also where one
  heap has more containers than the other.
* `Heap.Unshared`: every container lies at one place only.
-/

namespace ReactiveTemplate

/-- An entry is what its name finds, as no name occurs twice. -/
theorem findEntry_of_mem {α : Type} {entries : List (String × α)} {entry : String × α}
    (hnodup : (entries.map Prod.fst).Nodup) (hentry : entry ∈ entries) :
    findEntry entry.1 entries = some entry.2 := by
  induction entries with
  | nil => simp at hentry
  | cons first rest ih =>
    rw [List.map_cons, List.nodup_cons] at hnodup
    rcases List.mem_cons.1 hentry with rfl | hrest
    · simp [findEntry]
    · have hne : first.1 ≠ entry.1 := by
        intro heq
        exact hnodup.1 (heq ▸ List.mem_map_of_mem hrest)
      simp only [findEntry, hne, if_false]
      exact ih hnodup.2 hrest

/-- A step below a container: a field of an object or an item of an array. -/
inductive Key where
  | field (name : String)
  | item (index : Nat)
  deriving DecidableEq, Repr

/-- The name of a step in the path of a view. -/
def Key.name : Key → String
  | .field name => name
  | .item index => Nat.repr index

namespace Heap

/-- The value at a step below a container. -/
def child? (h : Heap) : Container → Key → Option Value
  | .object id, .field name => (h.fields id).get? name
  | .array id, .item index => (h.items id)[index]?
  | _, _ => none

/-- The value at a chain of steps below a value. -/
def at? (h : Heap) : Value → List Key → Option Value
  | value, [] => some value
  | value, key :: keys =>
    value.container?.bind fun c => (h.child? c key).bind fun next => h.at? next keys

/-- The container at a chain of steps below a value. -/
def containerAlong? (h : Heap) (value : Value) (keys : List Key) : Option Container :=
  (h.at? value keys).bind Value.container?

/-- Whether a container exists. -/
def Known (h : Heap) : Container → Prop
  | .object id => id.index < h.objects.size
  | .array id => id.index < h.arrays.size

instance (h : Heap) : (c : Container) → Decidable (h.Known c)
  | .object id => inferInstanceAs (Decidable (id.index < h.objects.size))
  | .array id => inferInstanceAs (Decidable (id.index < h.arrays.size))

/-- Two heaps hold the same in a container. -/
def Agree (h h' : Heap) : Container → Prop
  | .object id => h.object id = h'.object id
  | .array id => h.array id = h'.array id

/-- Two heaps hold the same in all containers below a value. -/
def AgreeBelow (h h' : Heap) (value : Value) : Prop :=
  ∀ keys c, h.containerAlong? value keys = some c → h.Agree h' c

/-- Every container below a value lies at one place only. -/
def Unshared (h : Heap) (root : Value) : Prop :=
  ∀ keys keys' c, h.containerAlong? root keys = some c → h.containerAlong? root keys' = some c →
    keys = keys'

variable {h h' h'' : Heap} {value : Value} {c : Container}

/-! ## Chains -/

@[simp] theorem at?_nil (h : Heap) (value : Value) : h.at? value [] = some value := by
  cases value <;> rfl

theorem at?_cons (h : Heap) (value : Value) (key : Key) (keys : List Key) :
    h.at? value (key :: keys) =
      value.container?.bind fun c => (h.child? c key).bind fun next => h.at? next keys := by
  cases value <;> rfl

theorem at?_append (h : Heap) (value : Value) (keys keys' : List Key) :
    h.at? value (keys ++ keys') = (h.at? value keys).bind fun next => h.at? next keys' := by
  induction keys generalizing value with
  | nil => simp
  | cons key keys ih =>
    rw [List.cons_append, at?_cons, at?_cons]
    cases value.container? with
    | none => rfl
    | some c =>
      simp only [Option.bind_some]
      cases h.child? c key with
      | none => rfl
      | some next => exact ih next

@[simp] theorem containerAlong?_nil (h : Heap) (value : Value) :
    h.containerAlong? value [] = value.container? := by
  simp [containerAlong?]

theorem containerAlong?_append (h : Heap) (value : Value) (keys keys' : List Key) :
    h.containerAlong? value (keys ++ keys') =
      (h.at? value keys).bind fun next => h.containerAlong? next keys' := by
  rw [containerAlong?, at?_append, Option.bind_assoc]
  rfl

/-- What lies below a value that lies below another. -/
theorem containerAlong?_of_at? {next : Value} {keys keys' : List Key}
    (hnext : h.at? value keys = some next) :
    h.containerAlong? value (keys ++ keys') = h.containerAlong? next keys' := by
  rw [containerAlong?_append, hnext, Option.bind_some]

theorem at?_singleton (h : Heap) (value : Value) (key : Key) :
    h.at? value [key] = value.container?.bind fun c => h.child? c key := by
  rw [at?_cons]
  congr 1
  funext c
  simp

/-- Below a value that is no container there is nothing. -/
theorem containerAlong?_of_container?_eq_none (hvalue : value.container? = none)
    (keys : List Key) : h.containerAlong? value keys = none := by
  cases keys with
  | nil => simp [hvalue]
  | cons key keys => simp [containerAlong?, at?_cons, hvalue]

/-- The values in a container. -/
def contents (h : Heap) : Container → List Value
  | .object id => (h.fields id).entries.map Prod.snd
  | .array id => h.items id

theorem mem_of_findEntry {α : Type} {name : String} {value : α} {entries : List (String × α)}
    (h : findEntry name entries = some value) : (name, value) ∈ entries := by
  induction entries with
  | nil => cases h
  | cons entry entries ih =>
    obtain ⟨key, found⟩ := entry
    rw [findEntry] at h
    split at h
    · next heq => rw [heq, Option.some.inj h]; exact List.mem_cons_self
    · exact List.mem_cons_of_mem _ (ih h)

theorem mem_contents {key : Key} (hchild : h.child? c key = some value) : value ∈ h.contents c := by
  cases c with
  | object id =>
    cases key with
    | field name => exact List.mem_map.2 ⟨(name, value), mem_of_findEntry hchild, rfl⟩
    | item index => cases hchild
  | array id =>
    cases key with
    | field name => cases hchild
    | item index => exact List.mem_of_getElem? hchild

/-- Containers that hold no others than themselves are all that lies below them. -/
theorem mem_of_containerAlong? {cs : List Container}
    (hclosed : ∀ c ∈ cs, ∀ v ∈ h.contents c, ∀ d ∈ v.container?, d ∈ cs) :
    ∀ {keys : List Key} {value : Value}, (∀ d ∈ value.container?, d ∈ cs) →
      h.containerAlong? value keys = some c → c ∈ cs
  | [], value, hvalue, hc => hvalue c (by rwa [containerAlong?_nil] at hc)
  | key :: keys, value, hvalue, hc => by
    rw [containerAlong?, at?_cons] at hc
    cases hcontainer : value.container? with
    | none =>
      rw [hcontainer] at hc
      cases hc
    | some d =>
      rw [hcontainer, Option.bind_some] at hc
      cases hchild : h.child? d key with
      | none =>
        rw [hchild] at hc
        cases hc
      | some next =>
        rw [hchild, Option.bind_some] at hc
        exact mem_of_containerAlong? hclosed
          (hclosed d (hvalue d hcontainer) next (mem_contents hchild)) hc

/-- In an object of plain values there is no other container. -/
theorem containerAlong?_of_flat (hflat : ∀ v ∈ h.contents c, v.container? = none) {keys : List Key}
    {d : Container} (hd : h.containerAlong? c.value keys = some d) : keys = [] ∧ d = c := by
  have hc : c.value.container? = some c := by cases c <;> rfl
  cases keys with
  | nil =>
    rw [containerAlong?_nil, hc] at hd
    exact ⟨rfl, (Option.some.inj hd).symm⟩
  | cons key keys =>
    rw [containerAlong?, at?_cons, hc, Option.bind_some] at hd
    cases hchild : h.child? c key with
    | none =>
      rw [hchild] at hd
      cases hd
    | some next =>
      rw [hchild, Option.bind_some] at hd
      have hplain := containerAlong?_of_container?_eq_none (h := h) (hflat next (mem_contents hchild))
        keys
      rw [containerAlong?, hd] at hplain
      cases hplain

theorem Unshared.of_flat (hflat : ∀ v ∈ h.contents c, v.container? = none) :
    h.Unshared c.value := by
  intro keys keys' d hd hd'
  rw [(containerAlong?_of_flat hflat hd).1, (containerAlong?_of_flat hflat hd').1]

/-- Nothing lies below a number, a text, a condition or `undefined`. -/
theorem agreeBelow_of_container?_eq_none (h h' : Heap) (hvalue : value.container? = none) :
    h.AgreeBelow h' value := by
  intro keys c hc
  rw [containerAlong?_of_container?_eq_none hvalue] at hc
  cases hc

/-! ## Agreement -/

theorem Agree.child? (ha : h.Agree h' c) (key : Key) : h.child? c key = h'.child? c key := by
  cases c with
  | object id =>
    have hfields : h.fields id = h'.fields id := congrArg Cell.content ha
    cases key <;> simp [Heap.child?, hfields]
  | array id =>
    have hitems : h.items id = h'.items id := congrArg Cell.content ha
    cases key <;> simp [Heap.child?, hitems]

theorem Agree.trans (ha : h.Agree h' c) (ha' : h'.Agree h'' c) : h.Agree h'' c := by
  cases c <;> exact Eq.trans ha ha'

theorem Agree.refl (h : Heap) (c : Container) : h.Agree h c := by
  cases c <;> rfl

theorem AgreeBelow.refl (h : Heap) (value : Value) : h.AgreeBelow h value :=
  fun _ c _ => Agree.refl h c

/-- A chain that finds a value in one heap finds it in the other. -/
theorem AgreeBelow.at? (hb : h.AgreeBelow h' value) (keys : List Key) :
    h.at? value keys = h'.at? value keys := by
  induction keys generalizing value with
  | nil => simp
  | cons key keys ih =>
    rw [at?_cons, at?_cons]
    cases hc : value.container? with
    | none => rfl
    | some c =>
      have ha : h.Agree h' c := hb [] c (by simp [hc])
      simp only [Option.bind_some, ← ha.child? key]
      cases hnext : h.child? c key with
      | none => rfl
      | some next =>
        refine ih fun keys' d hd => hb (key :: keys') d ?_
        rw [containerAlong?, at?_cons, hc, Option.bind_some, hnext, Option.bind_some]
        exact hd

theorem AgreeBelow.containerAlong? (hb : h.AgreeBelow h' value) (keys : List Key) :
    h.containerAlong? value keys = h'.containerAlong? value keys := by
  rw [Heap.containerAlong?, Heap.containerAlong?, hb.at?]

theorem AgreeBelow.trans (hb : h.AgreeBelow h' value) (hb' : h'.AgreeBelow h'' value) :
    h.AgreeBelow h'' value := by
  intro keys c hc
  have hc' : h'.containerAlong? value keys = some c := by rw [← hb.containerAlong?, hc]
  exact (hb keys c hc).trans (hb' keys c hc')

theorem AgreeBelow.unshared (hb : h.AgreeBelow h' value) (hu : h.Unshared value) :
    h'.Unshared value := by
  intro keys keys' c hc hc'
  rw [← hb.containerAlong?] at hc hc'
  exact hu keys keys' c hc hc'

theorem AgreeBelow.below {next : Value} (hb : h.AgreeBelow h' value) (keys : List Key)
    (hnext : h.at? value keys = some next) : h.AgreeBelow h' next := by
  intro keys' c hc
  refine hb (keys ++ keys') c ?_
  rw [containerAlong?_of_at? hnext, hc]

theorem AgreeBelow.child {next : Value} {key : Key} (hb : h.AgreeBelow h' value)
    (hc : value.container? = some c) (hnext : h.child? c key = some next) :
    h.AgreeBelow h' next := by
  refine hb.below [key] ?_
  rw [at?_singleton, hc, Option.bind_some, hnext]

theorem AgreeBelow.self (hb : h.AgreeBelow h' value) (hc : value.container? = some c) :
    h.Agree h' c :=
  hb [] c (by simp [hc])

/-! ## Snapshots -/

theorem unfold_of_agreeBelow (depth : Nat) :
    ∀ (ancestors : List Container) {value : Value}, h.AgreeBelow h' value →
      h.unfold depth ancestors value = h'.unfold depth ancestors value := by
  induction depth with
  | zero =>
    intro ancestors value hb
    cases value with
    | object id =>
      have ha : h.object id = h'.object id := hb.self rfl
      simp only [unfold, ha]
    | array id =>
      have ha : h.array id = h'.array id := hb.self rfl
      simp only [unfold, ha]
    | _ => rfl
  | succ depth ih =>
    intro ancestors value hb
    cases value with
    | object id =>
      have ha : h.object id = h'.object id := hb.self rfl
      have hfields : h.fields id = h'.fields id := congrArg Cell.content ha
      simp only [unfold, ha, hfields]
      congr 3
      refine List.map_congr_left fun entry hentry => ?_
      have hget : h.child? (.object id) (.field entry.1) = some entry.2 := by
        rw [Agree.child? (hb.self rfl)]
        exact findEntry_of_mem (h'.fields id).nodup hentry
      rw [ih _ (hb.child rfl hget)]
    | array id =>
      have ha : h.array id = h'.array id := hb.self rfl
      have hitems : h.items id = h'.items id := congrArg Cell.content ha
      simp only [unfold, ha, hitems]
      congr 3
      refine List.map_congr_left fun item hitem => ?_
      obtain ⟨index, hindex⟩ := List.getElem?_of_mem hitem
      have hget : h.child? (.array id) (.item index) = some item := by
        rw [Heap.child?, hitems, hindex]
      exact ih _ (hb.child rfl hget)
    | _ => rfl

/-- All containers of a heap. -/
def containers (h : Heap) : List Container :=
  (List.range h.objects.size).map (fun i => .object ⟨i⟩) ++
    (List.range h.arrays.size).map fun i => .array ⟨i⟩

theorem mem_containers : c ∈ h.containers ↔ h.Known c := by
  cases c with
  | object id =>
    obtain ⟨index⟩ := id
    simp [containers, Known]
  | array id =>
    obtain ⟨index⟩ := id
    simp [containers, Known]

theorem length_containers (h : Heap) : h.containers.length = h.size := by
  simp [containers, size]

/-- Distinct containers are no more than there are. -/
theorem length_le_size {cs : List Container} (hnodup : cs.Nodup) (hknown : ∀ c ∈ cs, h.Known c) :
    cs.length ≤ h.size := by
  rw [← length_containers]
  exact (List.subperm_of_subset hnodup fun c hc => mem_containers.2 (hknown c hc)).length_le

/-- An unknown object has no fields. -/
theorem fields_of_not_known {id : ObjectId} (hid : ¬ h.Known (.object id)) :
    h.fields id = .empty := by
  have : ¬ id.index < h.objects.size := hid
  simp [fields, object, Array.getD, this]

/-- An unknown array has no items. -/
theorem items_of_not_known {id : ArrayId} (hid : ¬ h.Known (.array id)) : h.items id = [] := by
  have : ¬ id.index < h.arrays.size := hid
  simp [items, array, Array.getD, this]

/-- The ancestors of a place are distinct, so there are no places deeper than the number of
    containers. -/
theorem unfold_succ (depth : Nat) :
    ∀ (ancestors : List Container) (value : Value), ancestors.Nodup →
      (∀ c ∈ ancestors, h.Known c) → h.size < depth + ancestors.length →
      h.unfold (depth + 1) ancestors value = h.unfold depth ancestors value := by
  induction depth with
  | zero =>
    intro ancestors value hnodup hknown hsize
    have := length_le_size hnodup hknown
    omega
  | succ depth ih =>
    intro ancestors value hnodup hknown hsize
    -- A known container joins the ancestors, an unknown one has nothing below it.
    have hbelow : ∀ c, c ∉ ancestors → h.Known c → ∀ next,
        h.unfold (depth + 1) (c :: ancestors) next = h.unfold depth (c :: ancestors) next := by
      intro c hc hk next
      refine ih _ next (List.nodup_cons.2 ⟨hc, hnodup⟩) ?_ ?_
      · intro d hd
        rcases List.mem_cons.1 hd with rfl | hd
        · exact hk
        · exact hknown d hd
      · rw [List.length_cons]
        omega
    cases value with
    | object id =>
      simp only [unfold]
      split
      · rfl
      · next hmem =>
        split
        · rfl
        · by_cases hk : h.Known (.object id)
          · simp only [hbelow _ hmem hk]
          · simp [fields_of_not_known hk, Fields.empty]
    | array id =>
      simp only [unfold]
      split
      · rfl
      · next hmem =>
        split
        · rfl
        · by_cases hk : h.Known (.array id)
          · simp only [hbelow _ hmem hk]
          · simp [items_of_not_known hk]
    | _ => rfl

theorem snapshot_eq_unfold {depth : Nat} (hdepth : h.size < depth) (value : Value) :
    h.snapshot value = h.unfold depth [] value := by
  induction depth with
  | zero => omega
  | succ depth ih =>
    by_cases hlast : depth = h.size
    · rw [hlast]
      rfl
    · rw [ih (by omega), unfold_succ depth [] value List.nodup_nil (by simp) (by simp; omega)]

/-- What can be read of a value depends on the containers below it only. -/
theorem AgreeBelow.snapshot (hb : h.AgreeBelow h' value) : h.snapshot value = h'.snapshot value := by
  have hle : h.size < h.size + h'.size + 1 := by omega
  have hle' : h'.size < h.size + h'.size + 1 := by omega
  rw [snapshot_eq_unfold hle, snapshot_eq_unfold hle', unfold_of_agreeBelow _ _ hb]

end Heap

end ReactiveTemplate
