import ReactiveTemplate.Grammar.Sentence
import ReactiveTemplate.Value.Conversion

/-!
# Evaluation

The value of an expression in a scope. A name that the scope does not know and a
property that does not exist read as the empty text; the one thing that can go wrong
is a container that is being modified. An evaluation that has to write out an array
which contains itself does not end.

* `Scope`: where names are looked up.
* `resolvePath`: reads a path.
* `NoValue`, `writeOut`: evaluations without a value.
* `Expr.eval`: the value of an expression.
-/

namespace ReactiveTemplate

/-- Why an expression has no value: a container on a path is being modified. -/
inductive EvalError where
  | locked (path : String)
  deriving DecidableEq, Repr

/-- The wording of an error. -/
def EvalError.message : EvalError → String
  | .locked path => "state at '" ++ path ++ "' is being modified and cannot be read"

/-- Where names are looked up. -/
inductive Scope where
  /-- The fields of an object of the heap. -/
  | object (id : ObjectId)
  /-- Fields that are kept outside the heap. -/
  | fields (known : Fields Value)
  /-- One name in front of another scope. -/
  | item (name : String) (value : Value) (parent : Scope)

/-- The value of a name, if the scope knows it. -/
def Scope.lookup (h : Heap) : Scope → String → Except EvalError (Option Value)
  | .object id, name =>
    if (h.object id).locked then .error (.locked "") else .ok ((h.fields id).get? name)
  | .fields known, name => .ok (known.get? name)
  | .item itemName value parent, name =>
    if name = itemName then .ok (some value) else parent.lookup h name

/-- A property of a value: a field of an object, or the length of an array or text.
    The path walked so far goes into the error. -/
def property (h : Heap) (walked : List String) (value : Value) (name : String) :
    Except EvalError Value :=
  match value with
  | .object id =>
    if (h.object id).locked then .error (.locked (String.intercalate "." walked))
    else .ok (((h.fields id).get? name).getD .undefined)
  | .array id =>
    if name = "length" then
      if (h.array id).locked then .error (.locked (String.intercalate "." walked))
      else .ok (.count (h.items id).length)
    else .ok .undefined
  | .text t =>
    if name = "length" then .ok (.count (Text.units16 t)) else .ok .undefined
  | _ => .ok .undefined

/-- The value at a list of names below a value. Nothing lies below `undefined`. -/
def descend (h : Heap) : List String → Value → List String → Except EvalError Value
  | _, value, [] => .ok value
  | walked, value, name :: rest => do
    match ← property h walked value name with
    | .undefined => .ok .undefined
    | next => descend h (walked ++ [name]) next rest

/-- The empty text in place of `undefined`. -/
def Value.orEmpty : Value → Value
  | .undefined => .text ""
  | value => value

/-- Reads a path in a scope. -/
def resolvePath (h : Heap) (scope : Scope) (path : Path) : Except EvalError Value := do
  match ← scope.lookup h path.root with
  | none => .ok (.text "")
  | some value => return (← descend h [path.root] value path.below).orEmpty

/-- The value of a literal. -/
def Literal.value : Literal → Value
  | .text t => .text t
  | .number x => .number x
  | .bool b => .bool b

/-- The value of an operand. -/
def Operand.eval (h : Heap) (scope : Scope) : Operand → Except EvalError Value
  | .literal l => .ok l.value
  | .path p => resolvePath h scope p

/-! ## Operators -/

/-- Why an evaluation gives no value. -/
inductive NoValue where
  /-- It fails, and says why. -/
  | failed (error : EvalError)
  /-- It does not end, as it writes out an array that contains itself. -/
  | endless
  deriving DecidableEq, Repr

/-- A read as a step of an evaluation. -/
def attempt {α : Type} (read : Except EvalError α) : Except NoValue α := read.mapError .failed

/-- The conversion of some values to texts as a step of an evaluation, which goes on only
    if it ends. -/
def writeOut (h : Heap) (values : List Value) : Except NoValue Unit :=
  if ∀ value ∈ values, value.HasText h then .ok () else .error .endless

/-- The values that a comparison turns into texts. Loose equality leaves two containers as they
    are, and does not look at what it compares with a nullish value. -/
def CompareOp.displayed (op : CompareOp) (left right : Value) : List Value :=
  match op with
  | .strictEqual | .strictNotEqual => []
  | .looseEqual | .looseNotEqual =>
    if left.isNullish || right.isNullish then []
    else if left.isPrimitive || right.isPrimitive then [left, right]
    else []
  | .less | .greater | .lessOrEqual | .greaterOrEqual => [left, right]

/-- The outcome of a comparison. -/
def CompareOp.holds (h : Heap) (op : CompareOp) (left right : Value) : Bool :=
  match op with
  | .strictEqual => left.strictEquals right
  | .strictNotEqual => !left.strictEquals right
  | .looseEqual => left.looseEquals h right
  | .looseNotEqual => !left.looseEquals h right
  | .less => left.compare? h right == some .lt
  | .greater => left.compare? h right == some .gt
  | .lessOrEqual =>
    left.compare? h right == some .lt || left.compare? h right == some .eq
  | .greaterOrEqual =>
    left.compare? h right == some .gt || left.compare? h right == some .eq

/-- The value of an operation. A plus may append, the others work on numbers. -/
def Arithmetic.eval (h : Heap) (scope : Scope) (operation : Arithmetic) :
    Except NoValue Value := do
  let left ← attempt (resolvePath h scope operation.path)
  writeOut h [left]
  return match operation.op with
    | .add => left.add h (.number operation.number)
    | .subtract => .number (left.toNumber h - operation.number)
    | .multiply => .number (left.toNumber h * operation.number)
    | .divide => .number (left.toNumber h / operation.number)

/-! ## Concatenations -/

/-- The empty text in place of `null` and `undefined`. -/
def Value.orBlank (value : Value) : Value := if value.isNullish then .text "" else value

/-- The value of a part of a concatenation. -/
def ConcatPart.eval (h : Heap) (scope : Scope) : ConcatPart → Except NoValue Value
  | .literal l => .ok l.value
  | .path p => attempt (resolvePath h scope p)
  | .arithmetic operation => operation.eval h scope

/-- The sum of a value and parts that follow it, from left to right: numbers add up
    until a text comes. -/
def sumParts (h : Heap) (scope : Scope) : Value → List ConcatPart → Except NoValue Value
  | total, [] => .ok total
  | total, part :: rest => do
    let value ← part.eval h scope
    writeOut h [total, value.orBlank]
    sumParts h scope (total.add h value.orBlank) rest

/-- The text of a concatenation. -/
def evalConcat (h : Heap) (scope : Scope) : List ConcatPart → Except NoValue Value
  | [] => .ok (.text "")
  | first :: rest => do
    let value ← first.eval h scope
    let total ← sumParts h scope value.orBlank rest
    writeOut h [total]
    return .text (total.textContent h)

/-! ## Expressions -/

/-- The value of an expression. -/
def Expr.eval (h : Heap) (scope : Scope) : Expr → Except NoValue Value
  | .literal l => .ok l.value
  | .path p => attempt (resolvePath h scope p)
  | .compare left op right => do
    let left ← attempt (resolvePath h scope left)
    let right ← attempt (right.eval h scope)
    writeOut h (op.displayed left right)
    return .bool (op.holds h left right)
  | .arithmetic operation => operation.eval h scope
  | .concat parts => evalConcat h scope parts
  | .logical left op right => do
    let value ← left.eval h scope
    match op, value.isTruthy with
    | .and, true | .or, false => right.eval h scope
    | .and, false | .or, true => .ok value
  | .not p => do
    let value ← attempt (resolvePath h scope p)
    return .bool !value.isTruthy
  | .ternary condition thenValue elseValue => do
    let value ← attempt (resolvePath h scope condition)
    return if value.isTruthy then thenValue.value else elseValue.value

end ReactiveTemplate
