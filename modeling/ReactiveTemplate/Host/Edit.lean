import ReactiveTemplate.Host.Walk

/-!
# Editing a document

The operations that change a document. One that can fail after a part of its work is
done returns its outcome together with the document as it is then.

* `HostTree.insertBefore`, `HostTree.insertAfter`, `HostTree.replace`: moving nodes.
* `HostTree.remove`, `HostTree.destroy`: taking nodes out, and releasing their slots.
* `HostTree.cloneNode`: a copy of a subtree.
* `HostTree.setText`: replacing the content of an element.
-/

namespace ReactiveTemplate.HostTree

variable {α : Type}

/-! ## Making nodes -/

/-- Adds a node as the last child of a parent. -/
def append (t : HostTree α) (parent : NodeId) (node : Node α) : NodeId × HostTree α :=
  let (id, t) := t.allocate { node with parent := some parent }
  (id, t.modify parent fun p => { p with children := p.children ++ [id] })

/-- Adds an element as the last child of a parent. -/
def appendElement (t : HostTree α) (parent : NodeId) (tag : String)
    (attributes : List (String × String)) : NodeId × HostTree α :=
  t.append parent { Node.blank (.element tag) with attributes := .ofList attributes }

/-- Adds a text as the last child of a parent. -/
def appendText (t : HostTree α) (parent : NodeId) (text : String) : NodeId × HostTree α :=
  t.append parent { Node.blank .text with data := text }

/-- Makes a placeholder without a parent. -/
def createPlaceholder (t : HostTree α) (label : String) : NodeId × HostTree α :=
  t.allocate { Node.blank .placeholder with data := label }

/-! ## Releasing nodes -/

/-- Releases the nodes of a stack and all nodes below them. The children of a node come
    next, the last one first. -/
def releaseFrom : Nat → List NodeId → HostTree α → HostTree α
  | 0, _, t => t
  | _ + 1, [], t => t
  | fuel + 1, id :: stack, t =>
    match t.node? id with
    | none => releaseFrom fuel stack t
    | some node => releaseFrom fuel (node.children.reverse ++ stack) (t.vacate id)

/-- Releases a node and all nodes below it, without touching its parent. -/
def release (t : HostTree α) (id : NodeId) : HostTree α := releaseFrom t.slots.size [id] t

/-- Takes a node out of its parent. -/
def detach (t : HostTree α) (id : NodeId) : Except HostError (HostTree α) := do
  let node ← t.get id
  match node.parent with
  | none => return t
  | some parent =>
    let _ ← t.get parent
    let t := t.modify parent fun p => { p with children := p.children.filter (· != id) }
    return t.modify id fun n => { n with parent := none }

/-- Takes a node out of its parent. -/
def remove (t : HostTree α) (id : NodeId) : Except HostError (HostTree α) := t.detach id

/-- Takes a node out of its parent and releases it with all nodes below it. -/
def destroy (t : HostTree α) (id : NodeId) : Except HostError (HostTree α) :=
  if id = root then .error (.detached (t.describe id))
  else do
    let t ← t.detach id
    return t.release id

/-! ## Moving nodes -/

/-- Puts a node among the children of a parent. -/
def attach (t : HostTree α) (parent child : NodeId) (position : Nat) : HostTree α :=
  (t.modify parent fun p => { p with children := p.children.insertIdx position child }).modify child
    fun c => { c with parent := some parent }

/-- Inserts a node among the children of a parent, before another child or at the
    end. -/
def insertBefore (t : HostTree α) (parent child : NodeId) (reference : Option NodeId) :
    Except HostError Unit × HostTree α :=
  match t.get parent with
  | .error e => (.error e, t)
  | .ok _ =>
    match t.detach child with
    | .error e => (.error e, t)
    | .ok t =>
      let siblings := t.children parent
      match reference with
      | none => (.ok (), t.attach parent child siblings.length)
      | some reference =>
        match siblings.idxOf? reference with
        | some position => (.ok (), t.attach parent child position)
        | none => (.error (.notAChild (t.describe parent) (t.describe reference)), t)

/-- Inserts a node right after another one. -/
def insertAfter (t : HostTree α) (anchor child : NodeId) : Except HostError Unit × HostTree α :=
  match t.parent? anchor with
  | none => (.error (.detached (t.describe anchor)), t)
  | some parent => t.insertBefore parent child (t.nextSibling? anchor)

/-- Puts a node into the place of another, which is left without a parent. -/
def replace (t : HostTree α) (old new : NodeId) : Except HostError Unit × HostTree α :=
  match t.get old with
  | .error e => (.error e, t)
  | .ok node =>
    match node.parent with
    | none => (.error (.detached (t.describe old)), t)
    | some parent =>
      match t.detach new with
      | .error e => (.error e, t)
      | .ok t =>
        match t.get parent with
        | .error e => (.error e, t)
        | .ok p =>
          match p.children.idxOf? old with
          | none => (.error (.detached (t.describe old)), t)
          | some position =>
            let t := t.modify parent fun p => { p with children := p.children.set position new }
            let t := t.modify new fun n => { n with parent := some parent }
            (.ok (), t.modify old fun n => { n with parent := none })

/-! ## Copies -/

/-- Copies nodes and puts the copies among the children of a parent, in order. -/
def cloneEach (clone : HostTree α → NodeId → Except HostError NodeId × HostTree α)
    (parent : NodeId) : List NodeId → HostTree α → Except HostError Unit × HostTree α
  | [], t => (.ok (), t)
  | child :: rest, t =>
    match clone t child with
    | (.error e, t) => (.error e, t)
    | (.ok copy, t) =>
      let t := t.modify copy fun n => { n with parent := some parent }
      let t := t.modify parent fun n => { n with children := n.children ++ [copy] }
      cloneEach clone parent rest t

/-- Copies a node and what lies below it, `depth` levels deep. -/
def cloneWithin : Nat → HostTree α → NodeId → Except HostError NodeId × HostTree α
  | 0, t, id => (.error (.unknownNode id.index), t)
  | depth + 1, t, id =>
    match t.get id with
    | .error e => (.error e, t)
    | .ok node =>
      let (copy, t) := t.allocate { node with parent := none, children := [], listeners := [] }
      match cloneEach (cloneWithin depth) copy node.children t with
      | (.error e, t) => (.error e, t)
      | (.ok (), t) => (.ok copy, t)

/-- Copies a node and all nodes below it. The copy has no listeners and no parent. -/
def cloneNode (t : HostTree α) (id : NodeId) : Except HostError NodeId × HostTree α :=
  cloneWithin (t.slots.size + 1) t id

/-! ## Content -/

/-- Releases a child that is a text, and leaves another one without a parent. -/
def dropChild (t : HostTree α) (child : NodeId) : HostTree α :=
  match t.node? child with
  | none => t
  | some node =>
    if node.kind = .text then t.release child
    else t.modify child fun n => { n with parent := none }

/-- Replaces the content of an element by a text, or the data of another node. -/
def setText (t : HostTree α) (id : NodeId) (text : String) : Except HostError (HostTree α) := do
  let node ← t.get id
  match node.kind with
  | .text | .placeholder => return t.modify id fun n => { n with data := text }
  | .document | .element _ =>
    let emptied := t.modify id fun n => { n with children := [] }
    let t := node.children.foldl dropChild emptied
    return if text = "" then t else (t.appendText id text).2

/-- Changes the node that a name means. -/
def update (t : HostTree α) (id : NodeId) (change : Node α → Node α) :
    Except HostError (HostTree α) := do
  let _ ← t.get id
  return t.modify id change

/-- Sets an attribute. -/
def setAttribute (t : HostTree α) (id : NodeId) (name value : String) :
    Except HostError (HostTree α) :=
  t.update id fun n => { n with attributes := n.attributes.insert name value }

/-- Sets a style, or takes it away where the value is empty. -/
def setStyle (t : HostTree α) (id : NodeId) (name value : String) :
    Except HostError (HostTree α) :=
  t.update id fun n =>
    { n with styles := if value = "" then n.styles.erase name else n.styles.insert name value }

/-- Sets the value of an input. -/
def setValue (t : HostTree α) (id : NodeId) (value : String) : Except HostError (HostTree α) :=
  t.update id fun n => { n with value := value }

/-! ## Listeners -/

/-- Adds a listener to a node; the result is its number. -/
def addListener (t : HostTree α) (id : NodeId) (event : String) (action : α) :
    Except HostError (Nat × HostTree α) := do
  let number := t.nextListener
  let t ← t.update id fun n => { n with listeners := n.listeners ++ [⟨number, event, action⟩] }
  return (number, { t with nextListener := number + 1 })

/-- Takes a listener away from a node. -/
def removeListener (t : HostTree α) (id : NodeId) (listener : Nat) :
    Except HostError (HostTree α) := do
  let node ← t.get id
  if node.listeners.any fun l => l.id = listener then
    return t.modify id fun n => { n with listeners := n.listeners.eraseP fun l => l.id = listener }
  else .error (.unknownListener listener)

end ReactiveTemplate.HostTree
