import ReactiveTemplate.Number.Written
import ReactiveTemplate.Text.Pieces

/-!
# JSON documents

The data of a JSON document. Integers and other numbers are kept apart, since
they are written differently.

* `Json.sortFields`: the order in which the fields of an object are kept.
* `Json.print`: a document over several lines, two spaces per level.
-/

namespace ReactiveTemplate

/-- The data of a JSON document. -/
inductive Json where
  | null
  | bool (value : Bool)
  | integer (value : Int)
  | real (value : Float)
  | text (value : String)
  | array (items : List Json)
  | object (fields : List (String × Json))
  deriving Inhabited

namespace Json

/-- Fields in the order of their names. -/
def sortFields (fields : List (String × Json)) : List (String × Json) :=
  fields.mergeSort fun a b => decide (a.1 ≤ b.1)

/-- Four hexadecimal digits. -/
def fourDigits (n : Nat) : List Char :=
  let digits := Nat.toDigits 16 n
  List.replicate (4 - digits.length) '0' ++ digits

/-- A character inside a JSON text. -/
def printChar (c : Char) : List Char :=
  if c = '"' ∨ c = '\\' then ['\\', c]
  else if c = '\n' then ['\\', 'n']
  else if c = '\r' then ['\\', 'r']
  else if c = '\t' then ['\\', 't']
  else if c.toNat = 8 then ['\\', 'b']
  else if c.toNat = 12 then ['\\', 'f']
  else if c.toNat < 32 then '\\' :: 'u' :: fourDigits c.toNat
  else [c]

/-- A JSON text. -/
def printText (text : String) : String :=
  String.ofList ('"' :: (text.toList.flatMap printChar ++ ['"']))

/-- A new line at a level of nesting. -/
def newLine (level : Nat) : String :=
  String.ofList ('\n' :: List.replicate (2 * level) ' ')

/-- The members of a container on lines of their own, between two brackets. -/
def bracket (opening closing : String) (level : Nat) (members : List String) : String :=
  match members with
  | [] => opening ++ closing
  | _ =>
    opening ++ newLine (level + 1) ++ String.intercalate ("," ++ newLine (level + 1)) members ++
      newLine level ++ closing

mutual

/-- A document at a level of nesting. -/
def printAt (level : Nat) : Json → String
  | .null => "null"
  | .bool b => if b then "true" else "false"
  | .integer n => toString n
  | .real x => Number.inDocument x
  | .text t => printText t
  | .array items => bracket "[" "]" level (printItems level items)
  | .object fields => bracket "\x7b" "\x7d" level (printFields level fields)

/-- The items of an array, each one level deeper. -/
def printItems (level : Nat) : List Json → List String
  | [] => []
  | item :: rest => printAt (level + 1) item :: printItems level rest

/-- The fields of an object, each one level deeper. -/
def printFields (level : Nat) : List (String × Json) → List String
  | [] => []
  | (name, value) :: rest =>
    (printText name ++ ": " ++ printAt (level + 1) value) :: printFields level rest

end

/-- A document over several lines. -/
def print (document : Json) : String := printAt 0 document

end Json

end ReactiveTemplate
