import ReactiveTemplate.Fields
import ReactiveTemplate.Text.Pieces

/-!
# State values and their heap

A state value is a plain datum or refers to a container. Containers live in a
heap; their number is their identity, so two values are the same container
exactly when they carry the same number. A container that is being modified is
locked: nothing can be read from it.

* `Value`, `Container`: values and references to containers.
* `Datum`, `Command`: a value written out as a tree, and the commands a state
  function is made of.
* `Heap`: the containers; `Heap.place` makes fresh ones from a datum.
-/

namespace ReactiveTemplate

/-- The identity of an object. -/
structure ObjectId where
  index : Nat
  deriving DecidableEq, Repr

/-- The identity of an array. -/
structure ArrayId where
  index : Nat
  deriving DecidableEq, Repr

/-- The identity of a state function. -/
structure FunctionId where
  index : Nat
  deriving DecidableEq, Repr

/-- A value of the state. Objects, arrays and functions are references. -/
inductive Value where
  | undefined
  | null
  | bool (value : Bool)
  | number (value : Float)
  | text (value : String)
  | object (id : ObjectId)
  | array (id : ArrayId)
  | function (id : FunctionId)
  deriving Inhabited, Repr

/-- A reference to what can be modified in place. -/
inductive Container where
  | object (id : ObjectId)
  | array (id : ArrayId)
  deriving DecidableEq, Repr

/-- The container a value refers to, if it refers to one. -/
def Value.container? : Value → Option Container
  | .object id => some (.object id)
  | .array id => some (.array id)
  | _ => none

/-- The value that refers to a container. -/
def Container.value : Container → Value
  | .object id => .object id
  | .array id => .array id

mutual

/-- A value written out as a tree. Its objects and arrays become fresh containers
    each time it is placed; `held` stands for a value that exists already. -/
inductive Datum where
  | undefined
  | null
  | bool (value : Bool)
  | number (value : Float)
  | text (value : String)
  | object (fields : List (String × Datum))
  | array (items : List Datum)
  | function (script : List Command)
  | held (value : Value)

/-- One command of a state function. It acts on the root of the state, and what it
    cannot do it leaves undone. -/
inductive Command where
  /-- Writes a value at a path. -/
  | set (path : String) (value : Datum)
  /-- Adds one to the number at a path. -/
  | increment (path : String)
  /-- Adds a value to the end of the array at a path. -/
  | push (path : String) (value : Datum)
  /-- Writes the name and the value of the event at hand at a path. -/
  | note (path : String)

end

instance : Inhabited Datum := ⟨.undefined⟩

/-- The commands of a state function, run in order. -/
abbrev Script := List Command

/-- The content of a container and whether it is being modified. -/
structure Cell (α : Type) where
  content : α
  locked : Bool

/-- All containers and functions that values refer to. -/
structure Heap where
  objects : Array (Cell (Fields Value))
  arrays : Array (Cell (List Value))
  functions : Array Script

namespace Heap

/-- No containers. -/
def empty : Heap := ⟨#[], #[], #[]⟩

instance : Inhabited Heap := ⟨empty⟩

/-- The cell of an object; an unknown one has no fields. -/
def object (h : Heap) (id : ObjectId) : Cell (Fields Value) :=
  h.objects.getD id.index ⟨.empty, false⟩

/-- The cell of an array; an unknown one has no items. -/
def array (h : Heap) (id : ArrayId) : Cell (List Value) :=
  h.arrays.getD id.index ⟨[], false⟩

/-- The fields of an object. -/
def fields (h : Heap) (id : ObjectId) : Fields Value := (h.object id).content

/-- The items of an array. -/
def items (h : Heap) (id : ArrayId) : List Value := (h.array id).content

/-- The commands of a state function. -/
def script (h : Heap) (id : FunctionId) : Script := h.functions.getD id.index []

/-- Whether a container is being modified. -/
def isLocked (h : Heap) : Container → Bool
  | .object id => (h.object id).locked
  | .array id => (h.array id).locked

/-- Replaces the fields of an object. -/
def setFields (h : Heap) (id : ObjectId) (fields : Fields Value) : Heap :=
  { h with objects := h.objects.modify id.index fun cell => { cell with content := fields } }

/-- Replaces the items of an array. -/
def setItems (h : Heap) (id : ArrayId) (items : List Value) : Heap :=
  { h with arrays := h.arrays.modify id.index fun cell => { cell with content := items } }

/-- Marks a container as being modified, or takes the mark away. -/
def setLocked (h : Heap) (locked : Bool) : Container → Heap
  | .object id =>
    { h with objects := h.objects.modify id.index fun cell => { cell with locked := locked } }
  | .array id =>
    { h with arrays := h.arrays.modify id.index fun cell => { cell with locked := locked } }

/-- Adds a fresh object. -/
def addObject (h : Heap) (fields : Fields Value) : ObjectId × Heap :=
  (⟨h.objects.size⟩, { h with objects := h.objects.push ⟨fields, false⟩ })

/-- Adds a fresh array. -/
def addArray (h : Heap) (items : List Value) : ArrayId × Heap :=
  (⟨h.arrays.size⟩, { h with arrays := h.arrays.push ⟨items, false⟩ })

/-- Adds a fresh state function. -/
def addFunction (h : Heap) (script : Script) : FunctionId × Heap :=
  (⟨h.functions.size⟩, { h with functions := h.functions.push script })

mutual

/-- The value of a datum, with fresh containers for its objects and arrays. -/
def place (h : Heap) : Datum → Value × Heap
  | .undefined => (.undefined, h)
  | .null => (.null, h)
  | .bool b => (.bool b, h)
  | .number x => (.number x, h)
  | .text t => (.text t, h)
  | .object entries =>
    let (fields, h) := placeFields h entries
    let (id, h) := h.addObject (.ofList fields)
    (.object id, h)
  | .array items =>
    let (values, h) := placeItems h items
    let (id, h) := h.addArray values
    (.array id, h)
  | .function script =>
    let (id, h) := h.addFunction script
    (.function id, h)
  | .held value => (value, h)

/-- The values of a list of data, placed from left to right. -/
def placeItems (h : Heap) : List Datum → List Value × Heap
  | [] => ([], h)
  | d :: rest =>
    let (value, h) := place h d
    let (values, h) := placeItems h rest
    (value :: values, h)

/-- The values of a list of named data, placed from left to right. -/
def placeFields (h : Heap) : List (String × Datum) → List (String × Value) × Heap
  | [] => ([], h)
  | (name, d) :: rest =>
    let (value, h) := place h d
    let (values, h) := placeFields h rest
    ((name, value) :: values, h)

end

/-- The value below a value at a list of names: a field of an object or, by its
    index, an item of an array. -/
def follow? (h : Heap) : Value → List String → Option Value
  | value, [] => some value
  | .object id, name :: rest => ((h.fields id).get? name).bind fun value => h.follow? value rest
  | .array id, name :: rest =>
    (name.toNat?.bind fun index => (h.items id)[index]?).bind fun value => h.follow? value rest
  | _, _ :: _ => none

/-- The container at a dotted path below a value, the value itself for the empty
    path. -/
def containerAt? (h : Heap) (root : Value) (path : String) : Option Container :=
  let (first, others) := Text.pieces '.' path.toList
  let names := if path = "" then [] else (first :: others).map String.ofList
  (h.follow? root names).bind Value.container?

/-- The number of containers. -/
def size (h : Heap) : Nat := h.objects.size + h.arrays.size

end Heap

end ReactiveTemplate
