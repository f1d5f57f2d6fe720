import ReactiveTemplate.Store.StatePath
import ReactiveTemplate.Value.Conversion

/-!
# Views of the state

A view is a container together with the dotted path that led to it. Reading a
container through a view gives a view of it in turn, and the same one again as long
as the same container is found there. Writing through a view changes the container
and names the path of what changed. Views are used on containers that no one else is
modifying; by a path one finds out before (`Store.barsRead`, `Store.barsWrite`).

* `Store`: the heap and the views; `Store.wrap` makes the view of the root.
* `Store.getField`, `Store.getItem`: reads through a view.
* `Store.setField`, `Store.setItem`: single writes, which do nothing where the value
  is the same.
* `Store.editItems`: an operation on a whole array, which is always a change.
* `Store.sortItems`: sorting, while which the array counts as being modified. By texts,
  an item without one is sorted as the empty text.
-/

namespace ReactiveTemplate

/-- The identity of a view. -/
structure ViewId where
  index : Nat
  deriving DecidableEq, Repr

/-- A container, the path that led to it, and the views read through it so far. -/
structure View where
  container : Container
  path : String
  children : Fields ViewId

/-- The containers of a state and the views of them. -/
structure Store where
  heap : Heap
  views : Array View

/-- What is read through a view: a plain value, or a view of a container. -/
inductive Read where
  | value (value : Value)
  | view (id : ViewId)
  deriving Repr

/-- What a write leaves behind: the store, the result, and the path that changed. -/
structure Written (α : Type) where
  store : Store
  result : α
  changed : Option String

namespace Store

/-- The view of the root. -/
def root : ViewId := ⟨0⟩

/-- Makes the views of a state from its root object. -/
def wrap (heap : Heap) (id : ObjectId) : Store := ⟨heap, #[⟨.object id, "", .empty⟩]⟩

/-- A view by its identity; an unknown one is a view of the root. -/
def view (s : Store) (id : ViewId) : View :=
  s.views.getD id.index (s.views.getD 0 ⟨.object ⟨0⟩, "", .empty⟩)

/-- The container behind a view. -/
def container (s : Store) (id : ViewId) : Container := (s.view id).container

/-- The object behind the view of the root. -/
def rootObject (s : Store) : ObjectId :=
  match s.container root with
  | .object id => id
  | .array _ => ⟨0⟩

/-- The path of a view. -/
def path (s : Store) (id : ViewId) : String := (s.view id).path

/-- The form of a view that shows its structure. -/
def inspect (s : Store) (id : ViewId) : String :=
  let kind := match s.container id with
    | .object _ => "TrackedObject"
    | .array _ => "TrackedArray"
  kind ++ " \x7b path: " ++ Text.quote (s.path id) ++ ", .. \x7d"

/-- The value behind a read. -/
def readValue (s : Store) : Read → Value
  | .value v => v
  | .view id => (s.container id).value

/-- Replaces the views read through a view. -/
def setChildren (s : Store) (id : ViewId) (children : Fields ViewId) : Store :=
  { s with views := s.views.modify id.index fun v => { v with children := children } }

/-- The read of a value found at a name of a view. The view read there before is used
    again if it is a view of the same container. -/
def readChild (s : Store) (id : ViewId) (name : String) (value : Value) : Read × Store :=
  match value.container? with
  | none => (.value value, s)
  | some found =>
    match ((s.view id).children.get? name).filter fun child => s.container child = found with
    | some child => (.view child, s)
    | none =>
      let child : ViewId := ⟨s.views.size⟩
      let added := { s with
        views := s.views.push ⟨found, childPath (s.path id) name, .empty⟩ }
      (.view child, added.setChildren id ((s.view id).children.insert name child))

/-! ## Reads and writes of objects -/

/-- Reads a field of an object. -/
def getField (s : Store) (id : ViewId) (object : ObjectId) (name : String) : Read × Store :=
  s.readChild id name (((s.heap.fields object).get? name).getD .undefined)

/-- Whether a write leaves things as they are: the value is the one that is there, or
    it is `undefined` and there is none. -/
def isUnchanged (old : Option Value) (new : Value) : Bool :=
  match old with
  | some old => old.strictEquals new
  | none => new.strictEquals .undefined

/-- Writes a field of an object. -/
def setField (s : Store) (id : ViewId) (object : ObjectId) (name : String) (value : Value) :
    Written Bool :=
  let fields := s.heap.fields object
  if isUnchanged (fields.get? name) value then ⟨s, false, none⟩
  else
    let heap := s.heap.setFields object (fields.insert name value)
    let s := { s with heap := heap }.setChildren id ((s.view id).children.erase name)
    ⟨s, true, some (childPath (s.path id) name)⟩

/-! ## Reads and writes of arrays -/

/-- Reads an item of an array. -/
def getItem (s : Store) (id : ViewId) (array : ArrayId) (index : Nat) : Read × Store :=
  s.readChild id (Nat.repr index) ((s.heap.items array)[index]?.getD .undefined)

/-- Items with a value written at an index, padded with `undefined` up to it. -/
def putItem (items : List Value) (index : Nat) (value : Value) : List Value :=
  (items ++ List.replicate (index + 1 - items.length) Value.undefined).set index value

/-- Writes an item of an array. -/
def setItem (s : Store) (id : ViewId) (array : ArrayId) (index : Nat) (value : Value) :
    Written Bool :=
  let items := s.heap.items array
  if isUnchanged items[index]? value then ⟨s, false, none⟩
  else
    let name := Nat.repr index
    let heap := s.heap.setItems array (putItem items index value)
    let s := { s with heap := heap }.setChildren id ((s.view id).children.erase name)
    ⟨s, true, some (childPath (s.path id) name)⟩

/-- An operation on all items of an array. The views read through the array are
    forgotten, and the array itself is what changed. -/
def editItems {α : Type} (s : Store) (id : ViewId) (array : ArrayId)
    (edit : List Value → List Value × α) : Written α :=
  let (items, result) := edit (s.heap.items array)
  let s := { s with heap := s.heap.setItems array items }.setChildren id .empty
  ⟨s, result, some (s.path id)⟩

end Store

/-! ## Operations on all items of an array -/

namespace Items

/-- Adds a value at the end; the result is the new length. -/
def push (value : Value) (items : List Value) : List Value × Nat :=
  (items ++ [value], items.length + 1)

/-- Takes the last value out. -/
def pop (items : List Value) : List Value × Option Value := (items.dropLast, items.getLast?)

/-- Takes the first value out. -/
def shift (items : List Value) : List Value × Option Value := (items.tail, items.head?)

/-- Adds a value at the beginning; the result is the new length. -/
def unshift (value : Value) (items : List Value) : List Value × Nat :=
  (value :: items, items.length + 1)

/-- Takes `count` values out from `start` on and puts others in their place; the
    result is what was taken out. What lies beyond the end is left out of account. -/
def splice (start count : Nat) (others : List Value) (items : List Value) :
    List Value × List Value :=
  let after := items.drop start
  (items.take start ++ others ++ after.drop count, after.take count)

/-- Puts the values in reverse order. -/
def reverse (items : List Value) : List Value × Unit := (items.reverse, ())

/-- Sorts the values by an order; equal ones keep their order. -/
def sortBy (le : Value → Value → Bool) (items : List Value) : List Value × Unit :=
  (items.mergeSort le, ())

/-- The order of display texts, with `undefined` last. -/
def displayOrder (h : Heap) (a b : Value) : Bool :=
  match a, b with
  | _, .undefined => true
  | .undefined, _ => false
  | a, b => decide (a.display h ≤ b.display h)

/-- The place of a double in the order of all doubles, the negative zero below the
    positive one and `NaN` above everything. -/
def rank (x : Float) : Int :=
  let word := x.toBits.toNat
  if word < Nat.pow 2 63 then Int.ofNat word else -Int.ofNat (word - Nat.pow 2 63) - 1

/-- The order of numeric values. -/
def numberOrder (h : Heap) (a b : Value) : Bool :=
  decide (rank (a.toNumber h) ≤ rank (b.toNumber h))

/-- The order of the lengths of display texts. -/
def lengthOrder (h : Heap) (a b : Value) : Bool :=
  decide ((a.display h).length ≤ (b.display h).length)

end Items

/-- Sorts the items of an array. The order sees the array as it is while it is sorted, being
    modified. -/
def Store.sortItems (s : Store) (id : ViewId) (array : ArrayId)
    (order : Heap → Value → Value → Bool) : Written Unit :=
  s.editItems id array (Items.sortBy (order (s.heap.setLocked true (.array array))))

end ReactiveTemplate
