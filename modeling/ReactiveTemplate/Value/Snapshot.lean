import ReactiveTemplate.Json.Basic
import ReactiveTemplate.Text.Quoted
import ReactiveTemplate.Value.Heap

/-!
# Snapshots

A snapshot is what can be read of a value at one moment, written out as a tree.
It is cut where a container is locked, and where a container lies below itself.
Everything that turns a whole value into text works on snapshots. What would have
to go on below a container that lies below itself never ends, and has no result.

* `Heap.snapshot`: the snapshot of a value.
* `Snapshot.display?`, `Snapshot.textContent?`: the text of a value, and the same
  with nothing for `null` and `undefined`.
* `Snapshot.json?`: the JSON document of a value.
* `Snapshot.inspect?`: the form of a value that shows its structure.
-/

namespace ReactiveTemplate

/-- What can be read of a value, as a tree. -/
inductive Snapshot where
  | undefined
  | null
  | bool (value : Bool)
  | number (value : Float)
  | text (value : String)
  | object (fields : List (String × Snapshot))
  | array (items : List Snapshot)
  | function
  /-- A container that is being modified. -/
  | locked (container : Container)
  /-- A container that is one of its own ancestors. -/
  | circular (container : Container)
  deriving Inhabited

namespace Heap

/-- The snapshot of a value below the given containers, `depth` levels deep. -/
def unfold (h : Heap) : Nat → List Container → Value → Snapshot
  | _, _, .undefined => .undefined
  | _, _, .null => .null
  | _, _, .bool b => .bool b
  | _, _, .number x => .number x
  | _, _, .text t => .text t
  | _, _, .function _ => .function
  | depth, ancestors, .object id =>
    if Container.object id ∈ ancestors then .circular (.object id)
    else if (h.object id).locked then .locked (.object id)
    else match depth with
      | 0 => .circular (.object id)
      | depth + 1 =>
        .object <| (h.fields id).entries.map fun (name, value) =>
          (name, h.unfold depth (.object id :: ancestors) value)
  | depth, ancestors, .array id =>
    if Container.array id ∈ ancestors then .circular (.array id)
    else if (h.array id).locked then .locked (.array id)
    else match depth with
      | 0 => .circular (.array id)
      | depth + 1 =>
        .array <| (h.items id).map fun value =>
          h.unfold depth (.array id :: ancestors) value

/-- The snapshot of a value. Its ancestors at any place are distinct containers,
    so it is never deeper than their number. -/
def snapshot (h : Heap) (value : Value) : Snapshot := h.unfold (h.size + 1) [] value

end Heap

/-- The integer a double is, if it is one. -/
def Number.integer? (x : Float) : Option Int :=
  match Number.Binary.ofFloat x with
  | .finite negative m q =>
    let scale := Nat.pow 2 (-q).toNat
    if m % scale = 0 then
      let size := Int.ofNat (m / scale * Nat.pow 2 q.toNat)
      some (if negative then -size else size)
    else none
  | _ => none

/-- The JSON number of a double: an integer below nine quadrillion as an integer,
    and nothing for what is not finite. -/
def Json.ofNumber (x : Float) : Json :=
  match Number.integer? x with
  | some n => if n.natAbs < 9000000000000000 then .integer n else .real x
  | none => if x.isFinite then .real x else .null

namespace Snapshot

mutual

/-- The text of a value. Objects have one text, whatever is below them. An array below itself has
    none: writing it out would never end. -/
def display? : Snapshot → Option String
  | .undefined => some "undefined"
  | .null => some "null"
  | .bool b => some (if b then "true" else "false")
  | .number x => some (Number.displayed x)
  | .text t => some t
  | .object _ | .locked (.object _) | .circular (.object _) => some "[object Object]"
  | .array items => (displayItems? items).map (String.intercalate ",")
  | .locked (.array _) => some ""
  | .circular (.array _) => none
  | .function => some "function"

/-- The texts of the items of an array, nothing for `null` and `undefined`. -/
def displayItems? : List Snapshot → Option (List String)
  | [] => some []
  | .undefined :: rest => (displayItems? rest).map ("" :: ·)
  | .null :: rest => (displayItems? rest).map ("" :: ·)
  | item :: rest =>
    (display? item).bind fun text => (displayItems? rest).map (text :: ·)

end

/-- The text of a value, nothing for `null` and `undefined`. -/
def textContent? : Snapshot → Option String
  | .undefined | .null => some ""
  | s => s.display?

mutual

/-- The JSON document of a value, with `null` for what JSON does not have. A container below itself
    has none. -/
def json? : Snapshot → Option Json
  | .bool b => some (.bool b)
  | .number x => some (.ofNumber x)
  | .text t => some (.text t)
  | .object fields => (jsonFields? fields).map fun fields => .object (Json.sortFields fields)
  | .array items => (jsonItems? items).map .array
  | .undefined | .null | .function | .locked _ => some .null
  | .circular _ => none

/-- The JSON documents of the items of an array. -/
def jsonItems? : List Snapshot → Option (List Json)
  | [] => some []
  | item :: rest =>
    (json? item).bind fun document => (jsonItems? rest).map (document :: ·)

/-- The JSON documents of the fields of an object. -/
def jsonFields? : List (String × Snapshot) → Option (List (String × Json))
  | [] => some []
  | (name, value) :: rest =>
    (json? value).bind fun document => (jsonFields? rest).map ((name, document) :: ·)

end

mutual

/-- The form of a value that shows its structure: texts quoted, fields in braces,
    items in brackets. A container below itself has none. -/
def inspect? : Snapshot → Option String
  | .undefined => some "undefined"
  | .null => some "null"
  | .bool b => some (if b then "true" else "false")
  | .number x => some (Number.displayed x)
  | .text t => some (Text.quote t)
  | .object fields => (inspectFields? fields).map fun fields =>
    "\x7b" ++ String.intercalate ", " fields ++ "\x7d"
  | .array items => (inspectItems? items).map fun items =>
    "[" ++ String.intercalate ", " items ++ "]"
  | .locked (.object _) => some "\x7b<borrowed>\x7d"
  | .locked (.array _) => some "[<borrowed>]"
  | .circular _ => none
  | .function => some "<function>"

/-- The items of an array, each with its structure. -/
def inspectItems? : List Snapshot → Option (List String)
  | [] => some []
  | item :: rest =>
    (inspect? item).bind fun text => (inspectItems? rest).map (text :: ·)

/-- The fields of an object, each with its structure. -/
def inspectFields? : List (String × Snapshot) → Option (List String)
  | [] => some []
  | (name, value) :: rest =>
    (inspect? value).bind fun text =>
      (inspectFields? rest).map ((Text.quote name ++ ": " ++ text) :: ·)

end

end Snapshot

end ReactiveTemplate
