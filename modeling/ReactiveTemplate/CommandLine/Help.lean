/-!
# Help texts

What the program says about itself.

* `HelpPage.text`: the text of a page.
-/

namespace ReactiveTemplate.CommandLine

/-- The pages of the help. -/
inductive HelpPage where
  | overview
  | check (detailed : Bool)
  | eval
  | tokens
  | help
  deriving DecidableEq, Repr

/-- Lines, each with a line end. -/
def lines (ls : List String) : String := String.join (ls.map (· ++ "\n"))

/-- The text of a page. -/
def HelpPage.text : HelpPage → String
  | .overview => lines
    ["Check and evaluate Vortex binding expressions",
      "",
      "Usage: vortex <COMMAND>",
      "",
      "Commands:",
      "  check   Check whether text is accepted by a directive grammar",
      "  eval    Evaluate an expression against a JSON state",
      "  tokens  List the tokens of a piece of directive text",
      "  help    Print this message or the help of the given subcommand(s)",
      "",
      "Options:",
      "  -h, --help  Print help"]
  | .check false => lines
    ["Check whether text is accepted by a directive grammar",
      "",
      "Usage: vortex check [OPTIONS] <TEXT>",
      "",
      "Arguments:",
      "  <TEXT>  The directive text",
      "",
      "Options:",
      "      --as <GRAMMAR>  Which grammar to check against [default: expression] " ++
        "[possible values: expression, for, event]",
      "  -h, --help          Print help (see more with '--help')"]
  | .check true => lines
    ["Check whether text is accepted by a directive grammar",
      "",
      "Usage: vortex check [OPTIONS] <TEXT>",
      "",
      "Arguments:",
      "  <TEXT>",
      "          The directive text",
      "",
      "Options:",
      "      --as <GRAMMAR>",
      "          Which grammar to check against",
      "          ",
      "          [default: expression]",
      "",
      "          Possible values:",
      "          - expression: bind, show, if and model values",
      "          - for:        `<item> in <list>`",
      "          - event:      The code half of an `on` entry",
      "",
      "  -h, --help",
      "          Print help (see a summary with '-h')"]
  | .eval => lines
    ["Evaluate an expression against a JSON state",
      "",
      "Usage: vortex eval [OPTIONS] <EXPRESSION>",
      "",
      "Arguments:",
      "  <EXPRESSION>  The expression to evaluate",
      "",
      "Options:",
      "      --state <STATE>  State object as JSON [default: \x7b\x7d]",
      "      --item <ITEM>    Loop item as `name=json`, shadowing state",
      "      --json           Print the result as JSON instead of display text",
      "  -h, --help           Print help"]
  | .tokens => lines
    ["List the tokens of a piece of directive text",
      "",
      "Usage: vortex tokens <TEXT>",
      "",
      "Arguments:",
      "  <TEXT>  ",
      "",
      "Options:",
      "  -h, --help  Print help"]
  | .help => lines
    ["Print this message or the help of the given subcommand(s)",
      "",
      "Usage: vortex help [COMMAND]...",
      "",
      "Arguments:",
      "  [COMMAND]...  Print help for the subcommand(s)"]

end ReactiveTemplate.CommandLine
