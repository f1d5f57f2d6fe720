import ReactiveTemplate.CommandLine.Help
import ReactiveTemplate.Text.Pieces

/-!
# Requests

Reads the arguments of the program. Options and the text of a command may come in any
order; after `--` everything is text. What is wrong is found from left to right, and a
wish for help stops the reading.

* `Request`: what the arguments ask for.
* `Request.ofArguments`: reads the arguments.
-/

namespace ReactiveTemplate.CommandLine

/-- The grammars that a text can be checked against. -/
inductive GrammarName where
  | expression
  | forClause
  | event
  deriving DecidableEq, Repr

/-- What the arguments ask for. -/
inductive Request where
  /-- Whether a text is inside a grammar. -/
  | check (text : String) (grammar : GrammarName)
  /-- The value of an expression in a state, perhaps with an item in front of it. -/
  | eval (expression state : String) (item : Option String) (json : Bool)
  /-- The tokens of a text. -/
  | tokens (text : String)
  /-- A page of the help. -/
  | help (page : HelpPage)
  deriving DecidableEq, Repr

/-- Why arguments cannot be used. -/
inductive Misuse where
  | missingCommand
  | unknownCommand (name : String)
  | unexpected (argument : String)
  | missingText (name : String)
  | missingValue (option : String)
  | repeated (option : String)
  | unknownValue (option value : String)
  deriving DecidableEq, Repr

/-- The wording of a misuse. -/
def Misuse.message : Misuse → String
  | .missingCommand => "a command is required"
  | .unknownCommand name => "unrecognized command '" ++ name ++ "'"
  | .unexpected argument => "unexpected argument '" ++ argument ++ "'"
  | .missingText name => "the argument <" ++ name ++ "> is required"
  | .missingValue option => "a value is required for '--" ++ option ++ "'"
  | .repeated option => "the argument '--" ++ option ++ "' cannot be used multiple times"
  | .unknownValue option value => "invalid value '" ++ value ++ "' for '--" ++ option ++ "'"

/-! ## Arguments of a command -/

/-- What a command takes besides the wish for help. -/
structure Shape where
  /-- The name of the text, which is always required. -/
  text : String
  /-- The options with a value, and the values they admit; any value if none is listed. -/
  options : List (String × List String)
  /-- The options without a value. -/
  flags : List String

/-- The arguments of a command that were read so far. -/
structure Given where
  text : Option String
  values : List (String × String)
  flags : List String

/-- Why the reading of arguments stops early. -/
inductive Halt where
  | help (detailed : Bool)
  | misuse (misuse : Misuse)

/-- The forms of an argument. -/
inductive Form where
  | text
  | short (letter : Char)
  | long (name : String) (value : Option String)

/-- The form of an argument. A lone minus is a text. -/
def formOf (argument : String) : Form :=
  match argument.toList with
  | '-' :: '-' :: cs =>
    match Text.cutAtFirst? '=' cs with
    | some (name, value) => .long (String.ofList name) (some (String.ofList value))
    | none => .long (String.ofList cs) none
  | '-' :: c :: _ => .short c
  | _ => .text

/-- Takes an argument as the text of a command. -/
def Given.withText (given : Given) (argument : String) : Except Halt Given :=
  match given.text with
  | none => .ok { given with text := some argument }
  | some _ => .error (.misuse (.unexpected argument))

/-- Takes the value of an option. -/
def Given.withValue (given : Given) (name : String) (choices : List String) (value : String) :
    Except Halt Given :=
  if choices ≠ [] ∧ value ∉ choices then .error (.misuse (.unknownValue name value))
  else if given.values.any fun entry => entry.1 = name then .error (.misuse (.repeated name))
  else .ok { given with values := given.values ++ [(name, value)] }

/-- Takes an option without a value. -/
def Given.withFlag (given : Given) (name : String) : Except Halt Given :=
  if name ∈ given.flags then .error (.misuse (.repeated name))
  else .ok { given with flags := given.flags ++ [name] }

/-- The values that an option of a command admits, if the command has it. -/
def Shape.choices? (shape : Shape) (name : String) : Option (List String) :=
  (shape.options.find? fun entry => entry.1 = name).map Prod.snd

/-- Reads the arguments of a command. -/
def Shape.collect (shape : Shape) : List String → Given → Except Halt Given
  | [], given => .ok given
  | argument :: rest, given =>
    if argument = "--" then rest.foldlM Given.withText given
    else
      match formOf argument with
      | .text => do shape.collect rest (← given.withText argument)
      | .short letter =>
        if letter = 'h' then .error (.help false) else .error (.misuse (.unexpected argument))
      | .long name value =>
        match value, shape.choices? name with
        | some value, some choices => do
          shape.collect rest (← given.withValue name choices value)
        | none, some choices =>
          match rest with
          | next :: rest =>
            match formOf next with
            | .text => do shape.collect rest (← given.withValue name choices next)
            | _ => .error (.misuse (.missingValue name))
          | [] => .error (.misuse (.missingValue name))
        | some _, none => .error (.misuse (.unexpected argument))
        | none, none =>
          if name = "help" then .error (.help true)
          else if name ∈ shape.flags then do shape.collect rest (← given.withFlag name)
          else .error (.misuse (.unexpected argument))

/-! ## Commands -/

/-- The names of the grammars. -/
def grammarNames : List String := ["expression", "for", "event"]

/-- The grammar with a name. -/
def GrammarName.ofText : String → GrammarName
  | "for" => .forClause
  | "event" => .event
  | _ => .expression

/-- What the command that checks a text takes. -/
def checkShape : Shape := ⟨"TEXT", [("as", grammarNames)], []⟩

/-- What the command that evaluates an expression takes. -/
def evalShape : Shape := ⟨"EXPRESSION", [("state", []), ("item", [])], ["json"]⟩

/-- What the command that lists tokens takes. -/
def tokensShape : Shape := ⟨"TEXT", [], []⟩

/-- The value given for an option. -/
def Given.value? (given : Given) (name : String) : Option String :=
  (given.values.find? fun entry => entry.1 = name).map Prod.snd

/-- Reads the arguments of a command: the page of the help that is asked for, or the
    request that `build` makes of the text and the options. -/
def Shape.read (shape : Shape) (page : Bool → HelpPage) (build : String → Given → Request)
    (arguments : List String) : Except Misuse Request :=
  match shape.collect arguments ⟨none, [], []⟩ with
  | .error (.help detailed) => .ok (.help (page detailed))
  | .error (.misuse misuse) => .error misuse
  | .ok given =>
    match given.text with
    | none => .error (.missingText shape.text)
    | some text => .ok (build text given)

/-- The page of the help that the names after `help` mean. -/
def helpPage : List String → Except Misuse HelpPage
  | [] => .ok .overview
  | ["check"] => .ok (.check true)
  | ["eval"] => .ok .eval
  | ["tokens"] => .ok .tokens
  | ["help"] => .ok .help
  | name :: _ => .error (.unknownCommand name)

/-- Reads the arguments of the program. -/
def Request.ofArguments : List String → Except Misuse Request
  | [] => .error .missingCommand
  | command :: arguments =>
    if command = "check" then
      checkShape.read .check (fun text given =>
        .check text (.ofText ((given.value? "as").getD "expression"))) arguments
    else if command = "eval" then
      evalShape.read (fun _ => .eval) (fun text given =>
        .eval text ((given.value? "state").getD "\x7b\x7d") (given.value? "item")
          (decide ("json" ∈ given.flags))) arguments
    else if command = "tokens" then
      tokensShape.read (fun _ => .tokens) (fun text _ => .tokens text) arguments
    else if command = "help" then (helpPage arguments).map .help
    else
      match formOf command with
      | .short 'h' | .long "help" none => .ok (.help .overview)
      | .text => .error (.unknownCommand command)
      | _ => .error (.unexpected command)

end ReactiveTemplate.CommandLine
