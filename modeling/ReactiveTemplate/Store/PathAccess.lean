import ReactiveTemplate.Store.View

/-!
# Access by path

Reading and writing below a view by a dotted path. Empty segments of a path are left
out on the way; only the last segment of a path that is written must not be empty.

A container that is being modified cannot be looked into: a walk that comes to one does
not come back. Who goes by a path asks first whether one bars it.

* `Store.getPath`, `Store.setPath`: reads and writes below a view.
* `Store.barsRead`, `Store.barsWrite`: whether a walk from the root does not come back.
* `StoreError`: why a path cannot be followed or written.
-/

namespace ReactiveTemplate

/-- Why a path cannot be followed or written. -/
inductive StoreError where
  | emptyPath
  | notAContainer (path : String)
  | invalidIndex (path segment : String)
  deriving DecidableEq, Repr

/-- The wording of an error. -/
def StoreError.message : StoreError → String
  | .emptyPath => "cannot write to the empty path"
  | .notAContainer path => "'" ++ path ++ "' is not an object or array"
  | .invalidIndex path segment =>
    "'" ++ segment ++ "' is not a valid index into array '" ++ path ++ "'"

/-- The index that a segment of a path spells: digits, after a plus or not, below
    `2 ^ 64`. -/
def arrayIndex? (segment : String) : Option Nat :=
  let digits := match segment.toList with
    | '+' :: rest => rest
    | cs => cs
  if digits ≠ [] ∧ digits.all Char.isDigit ∧ Number.ofDigits digits < Nat.pow 2 64 then
    some (Number.ofDigits digits)
  else none

/-- Whether a walk along some segments below a value comes to a container that is being
    modified and looks into it. A write that ends at the length of an array does not. -/
def Heap.bars (h : Heap) (writing : Bool) : Value → List String → Bool
  | .object id, segment :: rest =>
    (h.object id).locked || h.bars writing (((h.fields id).get? segment).getD .undefined) rest
  | .array id, segment :: rest =>
    if segment = "length" then (h.array id).locked && !(writing && rest.isEmpty)
    else (arrayIndex? segment).any fun index =>
      (h.array id).locked || h.bars writing ((h.items id)[index]?.getD .undefined) rest
  | _, _ => false

namespace Store

/-- The index that a segment spells into the array of a view. -/
def indexInto (s : Store) (id : ViewId) (segment : String) : Except StoreError Nat :=
  match arrayIndex? segment with
  | some index => .ok index
  | none => .error (.invalidIndex (s.path id) segment)

/-- Reads one segment below a read: a field of an object, an item or the length of an
    array. The path walked so far goes into the error. -/
def getSegment (s : Store) (walked : String) (current : Read) (segment : String) :
    Except StoreError Read × Store :=
  match current with
  | .value _ => (.error (.notAContainer walked), s)
  | .view id =>
    match s.container id with
    | .object object =>
      let (read, s) := s.getField id object segment
      (.ok read, s)
    | .array array =>
      if segment = "length" then (.ok (.value (.count (s.heap.items array).length)), s)
      else
        match s.indexInto id segment with
        | .error e => (.error e, s)
        | .ok index =>
          let (read, s) := s.getItem id array index
          (.ok read, s)

/-- Reads segments one below the other. The store keeps the views that were read, also
    where the walk fails. -/
def walk (s : Store) (walked : String) (current : Read) : List String →
    Except StoreError Read × Store
  | [] => (.ok current, s)
  | segment :: rest =>
    match s.getSegment walked current segment with
    | (.error e, s) => (.error e, s)
    | (.ok next, s) => s.walk (childPath walked segment) next rest

/-- The segments of a path that are not empty. -/
def steps (path : String) : List String := (pathSegments path).filter (· != "")

/-- Reads a path below a view. -/
def getPath (s : Store) (id : ViewId) (path : String) : Except StoreError Read × Store :=
  s.walk (s.path id) (.view id) (steps path)

/-- A path as the path of what it lies in, and its last segment. -/
def splitLast (path : String) : String × String :=
  match Text.cutAtLast? '.' path.toList with
  | some (parent, last) => (String.ofList parent, String.ofList last)
  | none => ("", path)

/-- Whether a read of a path below the root comes to a container that is being modified. -/
def barsRead (s : Store) (path : String) : Bool :=
  s.heap.bars false (.object s.rootObject) (steps path)

/-- Whether a write at a path below the root comes to a container that is being modified. -/
def barsWrite (s : Store) (path : String) : Bool :=
  (splitLast path).2 != "" && s.heap.bars true (.object s.rootObject) (steps path)

/-- Writes a value at a path below a view. What lies on the way must exist. -/
def setPath (s : Store) (id : ViewId) (path : String) (value : Value) :
    Written (Except StoreError Bool) :=
  let (parent, last) := splitLast path
  if last = "" then ⟨s, .error .emptyPath, none⟩
  else
    match s.getPath id parent with
    | (.error e, s) => ⟨s, .error e, none⟩
    | (.ok (.value _), s) => ⟨s, .error (.notAContainer (childPath (s.path id) parent)), none⟩
    | (.ok (.view found), s) =>
      match s.container found with
      | .object object =>
        let w := s.setField found object last value
        ⟨w.store, .ok w.result, w.changed⟩
      | .array array =>
        match s.indexInto found last with
        | .error e => ⟨s, .error e, none⟩
        | .ok index =>
          let w := s.setItem found array index value
          ⟨w.store, .ok w.result, w.changed⟩

end Store

end ReactiveTemplate
