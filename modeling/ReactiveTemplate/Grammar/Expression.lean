import ReactiveTemplate.Text.Pieces

/-!
# Expressions

The trees of the three grammars of directive texts: expressions, the clause of a
repeated element, and the actions of an event. Each tree is one accepted shape, so
evaluation has nothing left to check.

* `Path`: a dotted path, never without a first segment.
* `Expr`, `ForClause`, `EventAction`: the trees.
* `Expr.paths`: the paths an expression reads, in order, each once.
-/

namespace ReactiveTemplate

/-- A dotted path such as `user.address.city`: a name of the state, and the names of
    what is read below it. -/
structure Path where
  root : String
  below : List String
  deriving DecidableEq, Repr

namespace Path

/-- The segments of a path. -/
def segments (path : Path) : List String := path.root :: path.below

/-- The path that a text with dots spells. -/
def ofDotted (text : String) : Path :=
  let (first, others) := Text.pieces '.' text.toList
  ⟨String.ofList first, others.map String.ofList⟩

/-- The segments joined by dots. -/
def dotted (path : Path) : String := String.intercalate "." path.segments

end Path

/-- A literal of an expression. -/
inductive Literal where
  | text (value : String)
  | number (value : Float)
  | bool (value : Bool)
  deriving Repr

/-- The right side of a comparison or an assignment. -/
inductive Operand where
  | literal (value : Literal)
  | path (path : Path)
  deriving Repr

/-- The comparisons. -/
inductive CompareOp where
  | strictEqual
  | strictNotEqual
  | looseEqual
  | looseNotEqual
  | less
  | greater
  | lessOrEqual
  | greaterOrEqual
  deriving DecidableEq, Repr

/-- The operations of arithmetic. -/
inductive ArithmeticOp where
  | add
  | subtract
  | multiply
  | divide
  deriving DecidableEq, Repr

/-- The connectives. -/
inductive LogicalOp where
  | and
  | or
  deriving DecidableEq, Repr

/-- An operation on a path and a number, in parentheses or not. -/
structure Arithmetic where
  path : Path
  op : ArithmeticOp
  number : Float
  parenthesized : Bool
  deriving Repr

/-- A part of a concatenation. -/
inductive ConcatPart where
  | literal (value : Literal)
  | path (path : Path)
  | arithmetic (operation : Arithmetic)
  deriving Repr

/-- An expression. -/
inductive Expr where
  | literal (value : Literal)
  | path (path : Path)
  | compare (left : Path) (op : CompareOp) (right : Operand)
  | arithmetic (operation : Arithmetic)
  | concat (parts : List ConcatPart)
  | logical (left : Expr) (op : LogicalOp) (right : Expr)
  | not (path : Path)
  | ternary (condition : Path) (thenValue elseValue : Literal)
  deriving Inhabited, Repr

/-- The clause of a repeated element: a name for the items of the list at a path. -/
structure ForClause where
  item : String
  list : Path
  deriving DecidableEq, Repr

/-- The two ways to step a number. -/
inductive Direction where
  | increment
  | decrement
  deriving DecidableEq, Repr

/-- What an event may do. -/
inductive EventAction where
  /-- Calls a function of the state. -/
  | call (name : String)
  /-- Adds one to the number at a path, or takes one from it. -/
  | step (target : Path) (direction : Direction)
  /-- Writes a value at a path. -/
  | assign (target : Path) (value : Operand)
  deriving Repr

/-- The path an operand reads. -/
def Operand.reads : Operand → List Path
  | .literal _ => []
  | .path p => [p]

/-- The path a part of a concatenation reads. -/
def ConcatPart.reads : ConcatPart → List Path
  | .literal _ => []
  | .path p => [p]
  | .arithmetic operation => [operation.path]

namespace Expr

/-- The paths an expression reads, in the order of its text. -/
def reads : Expr → List Path
  | .literal _ => []
  | .path p | .not p => [p]
  | .compare left _ right => left :: right.reads
  | .arithmetic operation => [operation.path]
  | .concat parts => parts.flatMap ConcatPart.reads
  | .logical left _ right => left.reads ++ right.reads
  | .ternary condition _ _ => [condition]

/-- A list without the later occurrences of its members. -/
def distinct (seen : List Path) : List Path → List Path
  | [] => []
  | p :: rest => if p ∈ seen then distinct seen rest else p :: distinct (p :: seen) rest

/-- The paths an expression reads, in the order of its text, each once. -/
def paths (e : Expr) : List Path := distinct [] e.reads

end Expr

end ReactiveTemplate
