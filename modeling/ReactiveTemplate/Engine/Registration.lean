import ReactiveTemplate.Engine.Page

/-!
# Registration of directives

Makes the binding that an attribute asks for. A malformed attribute is reported and
makes no binding; a failure of the document is left to the caller.

* `Page.register`: the binding for one attribute.
* `Page.templateReads`: what the expressions of a template read besides the item.
* `eventEntries`: the entries of an attribute that asks for event actions.
-/

namespace ReactiveTemplate

/-- A directive together with the paths it reads. -/
structure Draft where
  directive : Directive
  reads : List String

/-! ## Event entries -/

/-- The entries of an attribute for events, which semicolons separate. Blank entries do
    not count. -/
def eventEntries (text : String) : List String :=
  let (first, others) := Text.pieces ';' text.toList
  ((first :: others).map fun cs => Text.trim (String.ofList cs)).filter (· != "")

/-- The event and the action text of an entry, which the first colon separates. -/
def splitEntry? (entry : String) : Option (String × String) :=
  match Text.cutAtFirst? ':' entry.toList with
  | none => none
  | some (event, code) =>
    let event := Text.trim (String.ofList event)
    if event = "" then none else some (event, Text.trim (String.ofList code))

namespace Page

/-! ## Expressions -/

/-- The directive that shows the value of an expression as text, or by visibility. -/
def registerExpression (page : Page) (kind : DirectiveKind) (text : String) : Draft × Page :=
  let (expression, page) := page.compile text .state
  let directive := match kind with
    | .visibility => Directive.visibility expression
    | _ => .text expression none
  (⟨directive, expression.dependencies⟩, page)

/-- The directive that takes an element out of its place while a value is false. -/
def registerPresence (page : Page) (node : NodeId) (text : String) :
    Except HostError Draft × Page :=
  let (expression, page) := page.compile text .state
  let (placeholder, host) :=
    page.host.createPlaceholder (page.attributeName .presence ++ " placeholder")
  let (value, page) := { page with host := host }.evaluate expression page.state.scope
  let draft : Draft := ⟨.presence expression placeholder value.isTruthy, expression.dependencies⟩
  if value.isTruthy then (.ok draft, page)
  else
    match page.editPartly (page.host.replace node placeholder) with
    | (.error e, page) => (.error e, page)
    | (.ok (), page) => (.ok draft, page)

/-! ## Templates -/

/-- Adds what the expression of an element of a template reads besides the item. -/
def elementReads (kind : DirectiveKind) (item : String) (found : List String × Page)
    (element : NodeId) : List String × Page :=
  let (reads, page) := found
  match page.host.attribute? element (page.attributeName kind) with
  | none => found
  | some source =>
    let (expression, page) := page.compile source .loop
    (reads ++ expression.dependenciesOutside item, page)

/-- Adds what the expressions of one kind in a template read besides the item. -/
def kindReads (item : String) (template : NodeId) (found : List String × Page)
    (kind : DirectiveKind) : Except HostError Unit × (List String × Page) :=
  match found.2.host.withAttribute template (found.2.attributeName kind) with
  | .error e => (.error e, found)
  | .ok elements => (.ok (), elements.foldl (elementReads kind item) found)

/-- The kinds of directives that count inside a template, in the order in which they are
    rendered. -/
def templateKinds : List DirectiveKind := [.bind, .visibility]

/-- What the expressions of a template read besides the item. They are compiled here, so
    that the rejected ones are reported at once. -/
def templateReads (page : Page) (item : String) (template : NodeId) :
    Except HostError Unit × (List String × Page) :=
  untilFailure (kindReads item template) templateKinds ([], page)

/-- The label of the placeholder of a repeated element. -/
def repetitionLabel (page : Page) (clause : ForClause) : String :=
  page.attributeName .repetition ++ " " ++ clause.item ++ " in " ++ clause.list.dotted

/-- The directive that repeats an element, which becomes the template and leaves its
    place to a placeholder. -/
def registerRepetition (page : Page) (node : NodeId) (text : String) :
    Except HostError (Option Draft) × Page :=
  let text := Text.trim text
  match parseForClause text with
  | .error e => (.ok none, { page with state := page.state.recordSyntax .malformedFor text e })
  | .ok clause =>
    match page.editPartly (page.host.cloneNode node) with
    | (.error e, page) => (.error e, page)
    | (.ok template, page) =>
      let (placeholder, host) := page.host.createPlaceholder (page.repetitionLabel clause)
      match page.editPartly (host.replace node placeholder) with
      | (.error e, page) => (.error e, page)
      | (.ok (), page) =>
        match page.templateReads clause.item template with
        | (.error e, _, page) => (.error e, page)
        | (.ok (), reads, page) =>
          let reads := (clause.list.dotted :: reads).eraseDups
          (.ok (some ⟨.repetition clause template placeholder [], reads⟩), page)

/-! ## Inputs and events -/

/-- The directive that ties the value of an input to a path of the state. -/
def registerModel (page : Page) (node : NodeId) (text : String) :
    Except HostError (Option Draft) × Page :=
  let (expression, page) := page.compile text .state
  match expression.outcome with
  | .error _ => (.ok none, page)
  | .ok (.path path) =>
    match page.host.addListener node "input" (.input path.dotted) with
    | .error e => (.error e, page)
    | .ok (listener, host) =>
      (.ok (some ⟨.model expression listener, [path.dotted]⟩), { page with host := host })
  | .ok _ =>
    (.ok none, page.record .malformedModel expression.source
      "two-way binding needs a property path")

/-- Adds the listener that an entry for an event asks for. -/
def registerEntry (node : NodeId) (found : List Nat × Page) (entry : String) :
    Except HostError Unit × (List Nat × Page) :=
  let (listeners, page) := found
  match splitEntry? entry with
  | none => (.ok (), listeners, page.record .malformedEvent entry "expected `event: code`")
  | some (event, code) =>
    match parseEventAction code with
    | .error e =>
      (.ok (), listeners,
        { page with state := page.state.recordSyntax .unsupportedEventCode code e })
    | .ok action =>
      match page.host.addListener node event (.run action) with
      | .error e => (.error e, found)
      | .ok (listener, host) => (.ok (), listeners ++ [listener], { page with host := host })

/-- The directive that runs actions on events. Without a sound entry there is none. -/
def registerEvents (page : Page) (node : NodeId) (text : String) :
    Except HostError (Option Draft) × Page :=
  match untilFailure (registerEntry node) (eventEntries text) ([], page) with
  | (.error e, _, page) => (.error e, page)
  | (.ok (), [], page) => (.ok none, page)
  | (.ok (), listeners, page) => (.ok (some ⟨.events listeners, []⟩), page)

/-! ## All kinds -/

/-- The directive that an attribute asks for. -/
def draft (page : Page) (kind : DirectiveKind) (node : NodeId) (text : String) :
    Except HostError (Option Draft) × Page :=
  match kind with
  | .bind | .visibility =>
    let (draft, page) := page.registerExpression kind text
    (.ok (some draft), page)
  | .presence =>
    let (draft, page) := page.registerPresence node text
    (draft.map some, page)
  | .repetition => page.registerRepetition node text
  | .model => page.registerModel node text
  | .events => page.registerEvents node text

/-- The binding that an attribute of a node asks for, with its number. -/
def register (page : Page) (id : Nat) (kind : DirectiveKind) (node : NodeId) (text : String) :
    Except HostError (Option Binding) × Page :=
  let (draft, page) := page.draft kind node text
  (draft.map fun draft => draft.map fun draft =>
    ⟨id, node, text, draft.directive,
      if page.config.trackDependencies then some draft.reads else none⟩, page)

end Page

end ReactiveTemplate
