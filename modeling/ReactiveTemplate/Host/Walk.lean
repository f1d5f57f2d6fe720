import ReactiveTemplate.Host.Tree
import ReactiveTemplate.Text.Blank

/-!
# Walks through a document

What can be read of a document: subtrees in document order, ancestors, siblings, the
text below a node, and the elements that a selector means.

Walks are bounded by the number of slots: below a node there are no more nodes than
slots, and no more lie above it.

* `HostTree.preorder`: a node and all nodes below it, in document order.
* `HostTree.documentOrder`: the same by recursion on the tree.
* `HostTree.isAttached`: whether the document is above a node.
* `HostTree.queryAll`, `HostTree.withAttribute`: elements in document order.
-/

namespace ReactiveTemplate

/-- The selectors of elements. -/
inductive Selector where
  | attribute (name : String)
  | id (value : String)
  | tag (name : String)
  deriving DecidableEq, Repr

namespace Selector

/-- Whether a character may stand in the name of a selector. -/
def isNameCharacter (c : Char) : Bool := c.isAlphanum || c == '-' || c == '_'

/-- Whether characters form the name of a selector. -/
def isName (name : List Char) : Bool := name != [] && name.all isNameCharacter

/-- The kind of a selector and its name, by the signs around the name. -/
def classify (text : List Char) : (String → Selector) × List Char :=
  match text with
  | '[' :: rest =>
    if rest.getLast? = some ']' then (.attribute, rest.dropLast) else (.tag, text)
  | '#' :: rest => (.id, rest)
  | _ => (.tag, text)

/-- Reads a selector, without the white space around it. -/
def parse (text : String) : Except HostError Selector :=
  let trimmed := Text.trimChars text.toList
  let (make, name) := classify trimmed
  if isName name then .ok (make (String.ofList name))
  else .error (.unsupportedSelector (String.ofList trimmed))

/-- Whether a selector means a node. -/
def selects {α : Type} (selector : Selector) (node : Node α) : Bool :=
  match node.kind, selector with
  | .element _, .attribute name => node.attributes.contains name
  | .element _, .id value => node.attributes.get? "id" == some value
  | .element found, .tag name => found == name
  | _, _ => false

end Selector

namespace HostTree

variable {α : Type}

/-! ## Document order -/

/-- The nodes below those of a stack, in document order. The children of a node come
    next on the stack. -/
def preorderFrom (t : HostTree α) : Nat → List NodeId → List NodeId
  | 0, _ => []
  | _ + 1, [] => []
  | fuel + 1, id :: stack =>
    match t.node? id with
    | none => t.preorderFrom fuel stack
    | some node => id :: t.preorderFrom fuel (node.children ++ stack)

/-- A node and all nodes below it, in document order. -/
def preorder (t : HostTree α) (id : NodeId) : List NodeId := t.preorderFrom t.slots.size [id]

/-- A node, and the subtrees of its children in order, `depth` levels deep. -/
def documentOrder (t : HostTree α) : Nat → NodeId → List NodeId
  | 0, _ => []
  | depth + 1, id =>
    match t.node? id with
    | none => []
    | some node => id :: node.children.flatMap (t.documentOrder depth)

/-! ## Relatives -/

/-- The parent of a node. -/
def parent? (t : HostTree α) (id : NodeId) : Option NodeId := (t.node? id).bind Node.parent

/-- The children of a node. -/
def children (t : HostTree α) (id : NodeId) : List NodeId := (t.node? id).elim [] Node.children

/-- The tag of an element. -/
def tag? (t : HostTree α) (id : NodeId) : Option String :=
  match (t.node? id).map Node.kind with
  | some (.element tag) => some tag
  | _ => none

/-- The children that are elements. -/
def elementChildren (t : HostTree α) (id : NodeId) : List NodeId :=
  (t.children id).filter fun child => (t.tag? child).isSome

/-- Whether a node is a placeholder. -/
def isPlaceholder (t : HostTree α) (id : NodeId) : Bool :=
  (t.node? id).map Node.kind == some .placeholder

/-- The node after another in a list. -/
def following (id : NodeId) : List NodeId → Option NodeId
  | [] => none
  | other :: rest => if other = id then rest.head? else following id rest

/-- The next child of the same parent. -/
def nextSibling? (t : HostTree α) (id : NodeId) : Option NodeId :=
  (t.parent? id).bind fun parent => following id (t.children parent)

/-- Whether the document is among a node and the `fuel` nodes above it. -/
def isAttachedWithin (t : HostTree α) : Nat → NodeId → Bool
  | 0, id => decide (id = root)
  | fuel + 1, id =>
    if id = root then true
    else
      match t.parent? id with
      | none => false
      | some parent => t.isAttachedWithin fuel parent

/-- Whether the document is above a node, or the node itself. -/
def isAttached (t : HostTree α) (id : NodeId) : Bool := t.isAttachedWithin t.slots.size id

/-- The value of an attribute. -/
def attribute? (t : HostTree α) (id : NodeId) (name : String) : Option String :=
  (t.node? id).bind fun node => node.attributes.get? name

/-- The nearest of the `fuel` nodes above a node that carries an attribute. -/
def closestWithin (t : HostTree α) (name : String) : Nat → NodeId → Option NodeId
  | 0, _ => none
  | fuel + 1, id =>
    match t.parent? id with
    | none => none
    | some parent =>
      if (t.attribute? parent name).isSome then some parent else t.closestWithin name fuel parent

/-- The nearest node above a node that carries an attribute. -/
def closestAncestor? (t : HostTree α) (id : NodeId) (name : String) : Option NodeId :=
  t.closestWithin name t.slots.size id

/-! ## Content -/

/-- The text of a node and of what lies below it, `depth` levels deep. -/
def textWithin (t : HostTree α) : Nat → Node α → String
  | 0, _ => ""
  | depth + 1, node =>
    match node.kind with
    | .text => node.data
    | .placeholder => ""
    | .document | .element _ =>
      String.join (node.children.map fun child => (t.node? child).elim "" (t.textWithin depth))

/-- The text of a node and of what lies below it. -/
def text (t : HostTree α) (id : NodeId) : Except HostError String := do
  let node ← t.get id
  return t.textWithin (t.slots.size + 1) node

/-- The value of a style, empty where it is not set. -/
def style (t : HostTree α) (id : NodeId) (name : String) : Except HostError String := do
  let node ← t.get id
  return (node.styles.get? name).getD ""

/-- The value of an input. -/
def value (t : HostTree α) (id : NodeId) : Except HostError String := do
  let node ← t.get id
  return node.value

/-! ## Queries -/

/-- The elements of the document that a selector means, in document order. -/
def queryAll (t : HostTree α) (selector : String) : Except HostError (List NodeId) := do
  let selector ← Selector.parse selector
  return (t.preorder root).filter fun id =>
    decide (id ≠ root) && (t.node? id).elim false selector.selects

/-- The first element of the document with an identifier. -/
def byId? (t : HostTree α) (identifier : String) : Option NodeId :=
  match t.queryAll ("#" ++ identifier) with
  | .ok ids => ids.head?
  | .error _ => none

/-- A node and the nodes below it that are elements with an attribute, in document
    order. -/
def withAttribute (t : HostTree α) (id : NodeId) (name : String) :
    Except HostError (List NodeId) := do
  let _ ← t.get id
  return (t.preorder id).filter fun id =>
    (t.node? id).elim false fun node => node.isElement && node.attributes.contains name

/-! ## Listeners -/

/-- The number of listeners for an event on a node. -/
def listenerCount (t : HostTree α) (id : NodeId) (event : String) : Nat :=
  (t.node? id).elim 0 fun node => node.listeners.countP fun l => l.event == event

/-- What the listeners for an event on a node do, in the order in which they were
    added. -/
def dispatch (t : HostTree α) (id : NodeId) (event : String) : Except HostError (List α) := do
  let node ← t.get id
  return (node.listeners.filter fun l => l.event == event).map Listener.action

end HostTree

end ReactiveTemplate
