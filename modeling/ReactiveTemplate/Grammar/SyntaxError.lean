import ReactiveTemplate.Grammar.Rule

/-!
# Syntax errors

Why a text is no sentence of a grammar: what was found at the furthest place that
reading reached, and what would have been accepted there.

* `SyntaxError.ofStop`: the error of the furthest stop in a text.
* `SyntaxError.message`: the wording, with the place.
-/

namespace ReactiveTemplate

/-- Why a text is not accepted, and the place in it, in bytes. -/
structure SyntaxError where
  reason : String
  start : Nat
  stop : Nat
  deriving DecidableEq, Repr

namespace SyntaxError

/-- The wording of a list of expectations. -/
def describeExpected : List Expectation → String
  | [] => "something else"
  | [e] => e.describe
  | e :: rest =>
    String.intercalate ", " ((e :: rest).dropLast.map Expectation.describe) ++ ", or " ++
      ((e :: rest).getLast?.elim "" Expectation.describe)

/-- The wording of a stop, where `spelling` writes an item. -/
def describeStop {σ : Type} (spelling : σ → String) (stop : Stop σ) : String :=
  let found := stop.rest.head?.elim "end of input" fun i => "'" ++ spelling i.item ++ "'"
  "found " ++ found ++ " expected " ++ describeExpected stop.expected

/-- The error of the furthest stop of a text of `length` bytes. -/
def ofStop {σ : Type} (spelling : σ → String) (length : Nat) : Furthest σ → SyntaxError
  | none => ⟨"unrecognized expression", 0, length⟩
  | some stop =>
    match stop.rest with
    | [] => ⟨describeStop spelling stop, length, length⟩
    | i :: _ => ⟨describeStop spelling stop, i.start, i.stop⟩

/-- The wording of an error with its place. -/
def message (error : SyntaxError) : String :=
  error.reason ++ s!" at {error.start}..{error.stop}"

end SyntaxError

end ReactiveTemplate
