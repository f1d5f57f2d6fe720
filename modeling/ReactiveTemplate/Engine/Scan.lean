import ReactiveTemplate.Engine.Registration

/-!
# Scanning a zone

Finds the attributes in a zone that ask for bindings, and makes the bindings. All
attributes are collected before any of them is registered, so an element that a
registration takes out of the document still gets its bindings.

* `Page.declarations`: the attributes that count, kind by kind in document order.
* `Page.scanZone`: the bindings of a zone.
-/

namespace ReactiveTemplate

/-- An attribute of an element that asks for a binding. -/
structure Declaration where
  kind : DirectiveKind
  node : NodeId
  text : String
  deriving DecidableEq, Repr

namespace Page

/-- The declaration of one kind on an element, if it counts. An element inside a repeated
    one belongs to the template, and a repeated element itself is only repeated. -/
def declaration? (page : Page) (kind : DirectiveKind) (node : NodeId) : Option Declaration :=
  let repetition := page.attributeName .repetition
  if (page.host.closestAncestor? node repetition).isSome then none
  else if kind ≠ .repetition ∧ (page.host.attribute? node repetition).isSome then none
  else (page.host.attribute? node (page.attributeName kind)).map fun text => ⟨kind, node, text⟩

/-- The declarations of one kind in a zone, in document order. -/
def declarationsOf (page : Page) (zone : NodeId) (kind : DirectiveKind) :
    Except HostError (List Declaration) := do
  let nodes ← page.host.withAttribute zone (page.attributeName kind)
  return nodes.filterMap (page.declaration? kind)

/-- The declarations in a zone, kind by kind in scan order. -/
def declarations (page : Page) (zone : NodeId) : Except HostError (List Declaration) := do
  let groups ← DirectiveKind.scanOrder.mapM (page.declarationsOf zone)
  return groups.flatten

/-- Adds the binding of a declaration to others. Bindings are numbered from `first` on. -/
def registerDeclaration (first : Nat) (found : List Binding × Page) (d : Declaration) :
    List Binding × Page :=
  let (bindings, page) := found
  match page.register (first + bindings.length) d.kind d.node d.text with
  | (.ok (some binding), page) => (bindings ++ [binding], page)
  | (.ok none, page) => (bindings, page)
  | (.error e, page) =>
    (bindings, page.record .bindingUpdateError (page.host.describe d.node)
      ("registering " ++ d.kind.suffix ++ " failed: " ++ e.message))

/-- Adds the bindings of a zone to others. -/
def scanZone (first : Nat) (found : List Binding × Page) (zone : NodeId) : List Binding × Page :=
  let (bindings, page) := found
  match page.declarations zone with
  | .error e =>
    (bindings, page.record .bindingUpdateError (page.host.describe zone)
      ("scanning failed: " ++ e.message))
  | .ok declarations =>
    let page := { page with
      state := page.state.log .debug
        (s!"found {declarations.length} directives in " ++ page.host.describe zone) }
    declarations.foldl (registerDeclaration first) (bindings, page)

end Page

end ReactiveTemplate
