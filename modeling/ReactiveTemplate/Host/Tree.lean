import ReactiveTemplate.Fields
import ReactiveTemplate.Text.Quoted

/-!
# The document tree

The nodes of a document live in numbered slots. A node is named by its slot and by the
generation the slot had when the node was made; a slot enters a new generation when its
node is released, so the name of a released node never again means a node, until the
generations of the slot come round.

A tree is generic in what its listeners do, since it only keeps them.

* `NodeId`, `Node`, `HostTree`: names, nodes and slots.
* `HostTree.node?`, `HostTree.modify`: access to a node.
* `HostTree.allocate`, `HostTree.vacate`: taking a slot and giving it back.
-/

namespace ReactiveTemplate

/-- The name of a node: its slot, and the generation of the slot. -/
structure NodeId where
  index : Nat
  generation : UInt32
  deriving DecidableEq, Repr

/-- The kinds of nodes. -/
inductive NodeKind where
  | document
  | element (tag : String)
  | text
  | placeholder
  deriving DecidableEq, Repr

/-- A listener of a node: its number, the event it listens for, what it does. -/
structure Listener (α : Type) where
  id : Nat
  event : String
  action : α

/-- A node. `data` is the content of a text node and the label of a placeholder. -/
structure Node (α : Type) where
  kind : NodeKind
  attributes : Fields String
  styles : Fields String
  data : String
  value : String
  parent : Option NodeId
  children : List NodeId
  listeners : List (Listener α)

/-- A node of a kind, with nothing else. -/
def Node.blank {α : Type} (kind : NodeKind) : Node α :=
  ⟨kind, .empty, .empty, "", "", none, [], []⟩

/-- Whether a node is an element. -/
def Node.isElement {α : Type} (node : Node α) : Bool :=
  match node.kind with
  | .element _ => true
  | _ => false

/-- A slot: its generation, and the node in it. -/
structure Slot (α : Type) where
  generation : UInt32
  node : Option (Node α)

/-- A document: the slots, the empty ones among them with the next to be taken first,
    and the number of the next listener. -/
structure HostTree (α : Type) where
  slots : Array (Slot α)
  free : List Nat
  nextListener : Nat

/-- Why an operation on a document fails. -/
inductive HostError where
  | unknownNode (index : Nat)
  /-- The node exists, but has no parent at which to insert or replace. -/
  | detached (node : String)
  | notAChild (parent child : String)
  | unsupportedSelector (selector : String)
  | unknownListener (id : Nat)
  deriving DecidableEq, Repr

/-- The wording of an error. -/
def HostError.message : HostError → String
  | .unknownNode index => s!"node #{index} does not exist"
  | .detached node => "node " ++ node ++ " is not attached to a parent"
  | .notAChild parent child => "node " ++ child ++ " is not a child of " ++ parent
  | .unsupportedSelector selector => "unsupported selector '" ++ selector ++ "'"
  | .unknownListener id => s!"listener {id} is not attached"

namespace HostTree

variable {α : Type}

/-- A document without content. -/
def empty : HostTree α := ⟨#[⟨0, some (.blank .document)⟩], [], 0⟩

instance : Inhabited (HostTree α) := ⟨empty⟩

/-- The document node. -/
def root : NodeId := ⟨0, 0⟩

/-- The number of slots, taken or empty. -/
def slotCount (t : HostTree α) : Nat := t.slots.size

/-- The number of slots that are taken. -/
def liveCount (t : HostTree α) : Nat := t.slots.size - t.free.length

/-- The node that a name means, if it means one. -/
def node? (t : HostTree α) (id : NodeId) : Option (Node α) :=
  match t.slots[id.index]? with
  | some slot => if slot.generation = id.generation then slot.node else none
  | none => none

/-- The node that a name means. -/
def get (t : HostTree α) (id : NodeId) : Except HostError (Node α) :=
  match t.node? id with
  | some node => .ok node
  | none => .error (.unknownNode id.index)

/-- Changes the node that a name means, if it means one. -/
def modify (t : HostTree α) (id : NodeId) (change : Node α → Node α) : HostTree α :=
  { t with
    slots := t.slots.modify id.index fun slot =>
      if slot.generation = id.generation then { slot with node := slot.node.map change } else slot }

/-- Puts a node into the first empty slot, or into a new one. -/
def allocate (t : HostTree α) (node : Node α) : NodeId × HostTree α :=
  match t.free with
  | index :: free =>
    (⟨index, (t.slots[index]?.elim 0 Slot.generation)⟩,
      { t with slots := t.slots.modify index fun slot => { slot with node := some node }, free })
  | [] => (⟨t.slots.size, 0⟩, { t with slots := t.slots.push ⟨0, some node⟩ })

/-- Takes the node out of its slot, which enters its next generation and is the next to
    be taken. -/
def vacate (t : HostTree α) (id : NodeId) : HostTree α :=
  { t with
    slots := t.slots.modify id.index fun slot => ⟨slot.generation + 1, none⟩
    free := id.index :: t.free }

/-- The short form of a node for messages. -/
def describe (t : HostTree α) (id : NodeId) : String :=
  match t.node? id with
  | none => s!"<destroyed #{id.index}>"
  | some node =>
    match node.kind with
    | .document => "#document"
    | .text => "#text " ++ Text.quote node.data
    | .placeholder => "<!-- " ++ node.data ++ " -->"
    | .element tag =>
      let attributes := node.attributes.entries.map fun (name, value) =>
        " " ++ name ++ "=\"" ++ value ++ "\""
      "<" ++ tag ++ String.join attributes ++ ">"

end HostTree

end ReactiveTemplate
