import ReactiveTemplate.Json.Reader

/-!
# Configuration

The names of the attributes that carry bindings, and the limits of the engine. A
configuration is written as a JSON object in which every field is optional, or as
an array of the field values in order.

* `Config.ofJson`: reads and validates a configuration.
* `Config.validate`: the rules for attribute names.
* `Config.attributeName`, `Config.zoneSelector`: the names that follow from it.
-/

namespace ReactiveTemplate

/-- What an attribute of an element can ask for. -/
inductive DirectiveKind where
  /-- Shows a value as the content of the element. -/
  | bind
  /-- Hides and shows the element. -/
  | visibility
  /-- Takes the element out of its place and puts it back. -/
  | presence
  /-- Repeats the element for each item of a list. -/
  | repetition
  /-- Ties the value of an input to the state. -/
  | model
  /-- Runs actions on events. -/
  | events
  deriving DecidableEq, Repr

/-- The kinds of directives in the order in which a zone is scanned for them. -/
def DirectiveKind.scanOrder : List DirectiveKind :=
  [.bind, .visibility, .presence, .repetition, .model, .events]

/-- The last part of the attribute name of a directive. -/
def DirectiveKind.suffix : DirectiveKind → String
  | .bind => "bind"
  | .visibility => "show"
  | .presence => "if"
  | .repetition => "for"
  | .model => "model"
  | .events => "on"

/-- The conventions of the markup and the limits of the engine. -/
structure Config where
  /-- Stands before the suffix of every directive attribute. -/
  attributePrefix : String
  /-- Marks the elements whose subtrees are mounted. -/
  zoneAttribute : String
  /-- Whether a flush leaves out bindings that read nothing that changed. -/
  trackDependencies : Bool
  /-- The number of diagnostics that are kept. -/
  maxDiagnostics : Nat
  deriving DecidableEq, Repr

namespace Config

/-- The configuration of a document without fields. -/
def standard : Config := ⟨"vx-", "vx-zone", true, 512⟩

instance : Inhabited Config := ⟨standard⟩

/-- The attribute name of a directive. -/
def attributeName (config : Config) (kind : DirectiveKind) : String :=
  config.attributePrefix ++ kind.suffix

/-- The selector of the elements that carry the zone attribute. -/
def zoneSelector (config : Config) : String := "[" ++ config.zoneAttribute ++ "]"

/-- Whether a character may stand in an attribute name. -/
def isNameCharacter (c : Char) : Bool :=
  c.isAlphanum || c == '-' || c == '_' || c == ':'

/-- Whether a text may be used in an attribute name. -/
def isName (name : String) : Bool := name != "" && name.toList.all isNameCharacter

end Config

/-- Why a configuration is refused. -/
inductive ConfigError where
  /-- The document cannot be read as a configuration. -/
  | document (failure : Json.Failure) (text : List Char)
  | invalidPrefix (name : String)
  | invalidZone (name : String)

/-- The field that is to blame for a refused configuration. -/
def ConfigError.field? : ConfigError → Option String
  | .document .. => none
  | .invalidPrefix _ => some "attribute_prefix"
  | .invalidZone _ => some "zone_attribute"

/-- The wording of a refusal. -/
def ConfigError.message : ConfigError → String
  | .document failure text => "invalid configuration: " ++ failure.message text
  | .invalidPrefix name =>
    "invalid `attribute_prefix`: '" ++ name ++ "' is not a valid attribute prefix"
  | .invalidZone name => "invalid `zone_attribute`: '" ++ name ++ "' is not a valid attribute name"

namespace Config

/-- Refuses names that cannot be used in markup. -/
def validate (config : Config) : Except ConfigError Unit :=
  if !isName config.attributePrefix then .error (.invalidPrefix config.attributePrefix)
  else if !isName config.zoneAttribute then .error (.invalidZone config.zoneAttribute)
  else .ok ()

/-! ## Reading a document -/

/-- The fields of a configuration document. -/
inductive Field where
  | attributePrefix
  | zoneAttribute
  | trackDependencies
  | maxDiagnostics
  deriving DecidableEq

/-- The fields in order. -/
def Field.all : List Field :=
  [.attributePrefix, .zoneAttribute, .trackDependencies, .maxDiagnostics]

/-- The name of a field in a document. -/
def Field.name : Field → String
  | .attributePrefix => "attribute_prefix"
  | .zoneAttribute => "zone_attribute"
  | .trackDependencies => "track_dependencies"
  | .maxDiagnostics => "max_diagnostics"

/-- The value that a number of a document is, for an error message. -/
def foundNumber : Json → Json.Found
  | .integer n => .integer n
  | .real x => .real x
  | _ => .null

/-- Reads a value of a kind that is not wanted, and fails with its description. -/
def refuse {α : Type} (expected : String) (cs : List Char) : Except Json.Failure α :=
  match cs with
  | 'n' :: rest => do Json.failAt (.wrongKind .null expected) (← Json.readWord "ull".toList rest)
  | 't' :: rest => do
    Json.failAt (.wrongKind (.bool true) expected) (← Json.readWord "rue".toList rest)
  | 'f' :: rest => do
    Json.failAt (.wrongKind (.bool false) expected) (← Json.readWord "alse".toList rest)
  | '-' :: rest => do
    let (n, rest) ← Json.readNumber true rest
    Json.failAt (.wrongKind (foundNumber n) expected) rest
  | '"' :: rest => do
    let (t, rest) ← Json.readText rest
    Json.failAt (.wrongKind (.text t) expected) rest
  | '[' :: _ => Json.failAt (.wrongKind .array expected) cs
  | '\x7b' :: _ => Json.failAt (.wrongKind .object expected) cs
  | c :: _ =>
    if c.isDigit then do
      let (n, rest) ← Json.readNumber false cs
      Json.failAt (.wrongKind (foundNumber n) expected) rest
    else Json.failAhead .expectedValue cs
  | [] => Json.failAhead .endInValue []

/-- Reads a text. -/
def readText (cs : List Char) : Except Json.Failure (String × List Char) :=
  match Json.skipSpace cs with
  | [] => Json.failAhead .endInValue []
  | '"' :: rest => Json.readText rest
  | cs => refuse "a string" cs

/-- Reads a truth value. -/
def readFlag (cs : List Char) : Except Json.Failure (Bool × List Char) :=
  match Json.skipSpace cs with
  | [] => Json.failAhead .endInValue []
  | 't' :: rest => do .ok (true, ← Json.readWord "rue".toList rest)
  | 'f' :: rest => do .ok (false, ← Json.readWord "alse".toList rest)
  | cs => refuse "a boolean" cs

/-- The count that a number of a document is. -/
def countOf (number : Json) (rest : List Char) : Except Json.Failure (Nat × List Char) :=
  match number with
  | .integer n =>
    if 0 ≤ n then .ok (n.toNat, rest) else Json.failAt (.wrongValue (.integer n) "usize") rest
  | other => Json.failAt (.wrongKind (foundNumber other) "usize") rest

/-- Reads a count. -/
def readCount (cs : List Char) : Except Json.Failure (Nat × List Char) :=
  match Json.skipSpace cs with
  | [] => Json.failAhead .endInValue []
  | '-' :: rest => do
    let (n, rest) ← Json.readNumber true rest
    countOf n rest
  | c :: rest =>
    if c.isDigit then do
      let (n, rest) ← Json.readNumber false (c :: rest)
      countOf n rest
    else refuse "usize" (c :: rest)

/-- Reads the value of a field into a configuration. -/
def readField (config : Config) (field : Field) (cs : List Char) :
    Except Json.Failure (Config × List Char) :=
  match field with
  | .attributePrefix => do
    let (t, rest) ← readText cs
    .ok ({ config with attributePrefix := t }, rest)
  | .zoneAttribute => do
    let (t, rest) ← readText cs
    .ok ({ config with zoneAttribute := t }, rest)
  | .trackDependencies => do
    let (b, rest) ← readFlag cs
    .ok ({ config with trackDependencies := b }, rest)
  | .maxDiagnostics => do
    let (n, rest) ← readCount cs
    .ok ({ config with maxDiagnostics := n }, rest)

/-- The characters left after a misplaced name: the closing bracket of the object is
    still taken where it follows. -/
def afterName (cs : List Char) : List Char :=
  match Json.skipSpace cs with
  | '\x7d' :: rest => rest
  | rest => rest

/-- Reads the fields of an object. No field may be unknown or occur twice. -/
def readFields :
    Nat → Config → List Field → Bool → List Char → Except Json.Failure (Config × List Char)
  | 0, _, _, _, cs => Json.failAhead .endInObject cs
  | fuel + 1, config, seen, first, cs => do
    match ← Json.nextField first cs with
    | none => .ok (config, Json.skipSpace cs)
    | some cs =>
      let (name, rest) ← Json.readText cs
      match Field.all.find? fun field => field.name = name with
      | none =>
        Json.failAt (.unknownField name (Field.all.map Field.name)) (afterName rest)
      | some field =>
        if field ∈ seen then Json.failAt (.duplicateField name) (afterName rest)
        else
          let rest ← Json.readColon rest
          let (config, rest) ← readField config field rest
          readFields fuel config (field :: seen) false rest

/-- Reads the values of an array into the fields in order. -/
def readItems (config : Config) :
    List Field → Bool → List Char → Except Json.Failure (Config × List Char)
  | [], _, cs => .ok (config, cs)
  | field :: fields, first, cs => do
    match ← Json.nextItem first cs with
    | none => .ok (config, cs)
    | some cs =>
      let (config, rest) ← readField config field cs
      readItems config fields false rest

/-- Reads a whole document as a configuration, without validating it. -/
def read (document : List Char) : Except Json.Failure Config :=
  match Json.skipSpace document with
  | [] => Json.failAhead .endInValue []
  | '[' :: rest => do
    let (config, rest) ← readItems standard Field.all true rest
    Json.nothingLeft (← Json.readArrayEnd rest)
    .ok config
  | '\x7b' :: rest => do
    let (config, rest) ← readFields (rest.length + 1) standard [] true rest
    Json.nothingLeft (← Json.readObjectEnd rest)
    .ok config
  | cs => refuse "struct EngineConfig" cs

/-- Reads and validates a configuration. -/
def ofJson (document : String) : Except ConfigError Config :=
  match read document.toList with
  | .error failure => .error (.document failure document.toList)
  | .ok config => do
    config.validate
    .ok config

end Config

end ReactiveTemplate
