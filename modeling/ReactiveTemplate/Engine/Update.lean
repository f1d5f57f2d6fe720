import ReactiveTemplate.Engine.Registration

/-!
# Update and cleanup of directives

Brings the place of a binding up to date, and puts it back to what it was.

* `Page.update`: updates a binding; a failure of the document is left to the caller.
* `Page.renderItems`: a copy of a template for each item of a list.
* `Binding.cleanup`: undoes what making a binding did.
-/

namespace ReactiveTemplate

namespace Page

/-! ## Lists -/

/-- Renders one element of a copy of a template. -/
def renderElement (kind : DirectiveKind) (scope : Scope) (page : Page) (element : NodeId) :
    Except HostError Unit × Page :=
  match page.host.attribute? element (page.attributeName kind) with
  | none => (.ok (), page)
  | some source =>
    let (expression, page) := page.compile source .loop
    let (value, page) := page.evaluate expression scope
    match kind with
    | .bind => page.edit (page.host.setText element (page.textOf value))
    | _ => page.setVisible element value.isTruthy

/-- Renders the elements of a copy that carry one kind of directive. -/
def renderKind (scope : Scope) (copy : NodeId) (page : Page) (kind : DirectiveKind) :
    Except HostError Unit × Page :=
  match page.host.withAttribute copy (page.attributeName kind) with
  | .error e => (.error e, page)
  | .ok elements => untilFailure (renderElement kind scope) elements page

/-- Renders a copy of a template for an item. -/
def renderCopy (page : Page) (copy : NodeId) (item : String) (value : Value) :
    Except HostError Unit × Page :=
  untilFailure (renderKind (.item item value page.state.scope) copy) templateKinds page

/-- Renders a copy for an item and puts it behind a node. -/
def placeCopy (page : Page) (anchor copy : NodeId) (item : String) (value : Value) :
    Except HostError Unit × Page :=
  match page.renderCopy copy item value with
  | (.error e, page) => (.error e, page)
  | (.ok (), page) => page.editPartly (page.host.insertAfter anchor copy)

/-- Destroys a node, if that can be done. -/
def discard (page : Page) (node : NodeId) : Page := (page.edit (page.host.destroy node)).2

/-- The outcome of a step that went well, where something may have failed before. -/
def outcome (earlier : Option HostError) : Except HostError Unit :=
  match earlier with
  | none => .ok ()
  | some e => .error e

/-- Puts a copy of a template for each value behind a node, each behind the one before.
    The copies so far are kept when one cannot be placed; an earlier failure has
    precedence over that one, but not over a template that cannot be copied. -/
def renderItems (item : String) (template : NodeId) (earlier : Option HostError) :
    List Value → NodeId → List NodeId → Page → Except HostError Unit × List NodeId × Page
  | [], _, rendered, page => (outcome earlier, rendered, page)
  | value :: rest, anchor, rendered, page =>
    match page.editPartly (page.host.cloneNode template) with
    | (.error e, page) => (.error e, rendered, page)
    | (.ok copy, page) =>
      match page.placeCopy anchor copy item value with
      | (.error e, page) => (.error (earlier.getD e), rendered, page.discard copy)
      | (.ok (), page) =>
        renderItems item template earlier rest copy (rendered ++ [copy]) page

/-- The values of the list at a path. Without a list the page is left as it is, with a
    note of the reason. -/
def listAt (page : Page) (path : Path) : Option (List Value) × Page :=
  match resolvePath page.state.heap page.state.scope path with
  | .error e => (none, page.record .evaluationError path.dotted e.message)
  | .ok (.array id) =>
    if page.state.heap.isLocked (.array id) then
      (none, page.record .evaluationError path.dotted "list is being modified and cannot be read")
    else (some (page.state.heap.items id), page)
  | .ok other =>
    (none, { page with
      state := page.state.log .debug
        ("'" ++ path.dotted ++ "' is " ++ other.typeName ++ ", not an array; list left as is") })

/-- Replaces the copies of a template by one for each item of the list. The old copies
    are destroyed first, and a failure to do so is reported when the new ones are in
    place. -/
def updateRepetition (page : Page) (clause : ForClause) (template placeholder : NodeId)
    (rendered : List NodeId) : Except HostError Unit × List NodeId × Page :=
  match page.listAt clause.list with
  | (none, page) => (.ok (), rendered, page)
  | (some values, page) =>
    let (earlier, host) := despiteFailures HostTree.destroy rendered page.host
    renderItems clause.item template earlier values placeholder [] { page with host := host }

/-! ## Single places -/

/-- Shows a value as the text of an element, if it is not what was shown last. -/
def updateText (page : Page) (node : NodeId) (expression : CompiledExpression)
    (shown : Option String) : Except HostError Unit × Option String × Page :=
  let (value, page) := page.evaluate expression page.state.scope
  let text := page.textOf value
  if shown = some text then (.ok (), shown, page)
  else
    match page.edit (page.host.setText node text) with
    | (.error e, page) => (.error e, shown, page)
    | (.ok (), page) => (.ok (), some text, page)

/-- Shows or hides an element. -/
def updateVisibility (page : Page) (node : NodeId) (expression : CompiledExpression) :
    Except HostError Unit × Page :=
  let (value, page) := page.evaluate expression page.state.scope
  page.setVisible node value.isTruthy

/-- Puts an element or its placeholder into their common place. -/
def updatePresence (page : Page) (node : NodeId) (expression : CompiledExpression)
    (placeholder : NodeId) (present : Bool) : Except HostError Unit × Bool × Page :=
  let (value, page) := page.evaluate expression page.state.scope
  let visible := value.isTruthy
  if visible = present then (.ok (), present, page)
  else
    let (old, new) := if visible then (placeholder, node) else (node, placeholder)
    match page.editPartly (page.host.replace old new) with
    | (.error e, page) => (.error e, present, page)
    | (.ok (), page) => (.ok (), visible, page)

/-- Shows a value in an input, unless the input holds its text already. -/
def updateModel (page : Page) (node : NodeId) (expression : CompiledExpression) :
    Except HostError Unit × Page :=
  let (value, page) := page.evaluate expression page.state.scope
  let text := page.textOf value
  match page.host.value node with
  | .error e => (.error e, page)
  | .ok held => if held = text then (.ok (), page) else page.edit (page.host.setValue node text)

/-! ## Bindings -/

/-- Brings a place up to date. The directive remembers what was done, also up to a
    failure. -/
def updateDirective (page : Page) (node : NodeId) :
    Directive → Except HostError Unit × Directive × Page
  | .text expression shown =>
    let (r, shown, page) := page.updateText node expression shown
    (r, .text expression shown, page)
  | .visibility expression =>
    let (r, page) := page.updateVisibility node expression
    (r, .visibility expression, page)
  | .presence expression placeholder present =>
    let (r, present, page) := page.updatePresence node expression placeholder present
    (r, .presence expression placeholder present, page)
  | .repetition clause template placeholder rendered =>
    let (r, rendered, page) := page.updateRepetition clause template placeholder rendered
    (r, .repetition clause template placeholder rendered, page)
  | .model expression listener =>
    let (r, page) := page.updateModel node expression
    (r, .model expression listener, page)
  | .events listeners => (.ok (), .events listeners, page)

/-- Brings the place of a binding up to date. -/
def update (page : Page) (b : Binding) : Except HostError Unit × Binding × Page :=
  let (r, directive, page) := page.updateDirective b.node b.directive
  (r, { b with directive := directive }, page)

end Page

/-! ## Cleanup -/

/-- Undoes what making a binding did: puts elements back into their places, and takes
    listeners away. All of it is tried; the result is the first failure. -/
def Binding.cleanup (b : Binding) (host : HostTree Reaction) :
    Option HostError × HostTree Reaction :=
  let back (placeholder : NodeId) (host : HostTree Reaction) :=
    match host.replace placeholder b.node with
    | (.ok (), host) => (none, host)
    | (.error e, host) => (some e, host)
  let release (listeners : List Nat) :=
    despiteFailures (fun host listener => host.removeListener b.node listener) listeners host
  match b.directive with
  | .text .. | .visibility _ | .presence _ _ true => (none, host)
  | .presence _ placeholder false => back placeholder host
  | .repetition _ _ placeholder rendered =>
    let (first, host) := despiteFailures HostTree.destroy rendered host
    let (second, host) := back placeholder host
    (first.or second, host)
  | .model _ listener => release [listener]
  | .events listeners => release listeners

end ReactiveTemplate
