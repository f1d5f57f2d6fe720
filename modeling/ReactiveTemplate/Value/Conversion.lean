import ReactiveTemplate.Number.Reading
import ReactiveTemplate.Value.Snapshot

/-!
# Conversions, equality and order of values

A value serves as a condition, a number or a text wherever one of these is
needed. Equality comes in two strengths, and `+` either adds or appends.

The text of an array that contains itself has no end. `Value.display?` gives none for
it, `Value.HasText` tells the values that have one, and an evaluation asks for that
before it converts a value. `Value.display`, and the conversions that go by way of it,
are meant for values that have a text; whatever else converts a value is told as if one
without a text had the empty one.

* `Value.display?`, `Value.HasText`: the text of a value, and whether it has one.
* `Value.isTruthy`, `Value.toNumber`, `Value.display`, `Value.textContent`: the
  conversions.
* `Value.strictEquals`: same kind and same value, containers by identity.
* `Value.looseEquals`: equality after conversion.
* `Value.compare?`, `Value.add`: order and sum.
-/

namespace ReactiveTemplate.Value

/-- The name of the kind of a value. -/
def typeName : Value → String
  | .undefined => "undefined"
  | .null => "null"
  | .bool _ => "boolean"
  | .number _ => "number"
  | .text _ => "string"
  | .object _ => "object"
  | .array _ => "array"
  | .function _ => "function"

/-- Whether a value is `null` or `undefined`. -/
def isNullish : Value → Bool
  | .undefined | .null => true
  | _ => false

/-- Whether a value is no container and no function. -/
def isPrimitive : Value → Bool
  | .object _ | .array _ | .function _ => false
  | _ => true

/-- A value as a condition: `false`, zero, `NaN`, the empty text, `null` and
    `undefined` do not hold. -/
def isTruthy : Value → Bool
  | .undefined | .null => false
  | .bool b => b
  | .number x => x != 0 && !x.isNaN
  | .text t => t != ""
  | .object _ | .array _ | .function _ => true

/-- A value as a text, as sums and comparisons use it. There is none for an array that
    contains itself: the conversion does not come to an end. -/
def display? (h : Heap) (value : Value) : Option String := (h.snapshot value).display?

/-- Whether the conversion of a value to a text comes to an end. -/
def HasText (h : Heap) (value : Value) : Prop := (value.display? h).isSome

instance (h : Heap) (value : Value) : Decidable (value.HasText h) :=
  inferInstanceAs (Decidable ((value.display? h).isSome = true))

/-- The text of a value that has one. -/
def display (h : Heap) (value : Value) : String := (value.display? h).getD ""

/-- A value as the content of an element: nothing for `null` and `undefined`. -/
def textContent (h : Heap) (value : Value) : String :=
  ((h.snapshot value).textContent?).getD ""

/-- The number of a condition. -/
def ofBool (b : Bool) : Float := if b then 1 else 0

/-- The number of a count. -/
def count (n : Nat) : Value := .number (Float.ofNat n)

/-- A value as a number. -/
def toNumber (h : Heap) : Value → Float
  | .undefined => Number.nan
  | .null => 0
  | .bool b => ofBool b
  | .number x => x
  | .text t => Number.ofText t
  | .array id => Number.ofText (display h (.array id))
  | .object _ | .function _ => Number.nan

/-- A container or function as its text, any other value as it is. -/
def toPrimitive (h : Heap) (value : Value) : Value :=
  if value.isPrimitive then value else .text (value.display h)

/-- Same kind and same value. Containers and functions are equal to themselves
    only, and `NaN` not even to itself. -/
def strictEquals : Value → Value → Bool
  | .undefined, .undefined | .null, .null => true
  | .bool a, .bool b => a == b
  | .number a, .number b => a == b
  | .text a, .text b => a == b
  | .object a, .object b => a == b
  | .array a, .array b => a == b
  | .function a, .function b => a == b
  | _, _ => false

/-- A condition as its number, any other value as it is. -/
def conditionAsNumber : Value → Value
  | .bool b => .number (ofBool b)
  | value => value

/-- Equality of two values that are neither nullish nor conditions nor containers:
    as numbers unless both are texts. -/
def equalPrimitives : Value → Value → Bool
  | .number a, .text b => a == Number.ofText b
  | .text a, .number b => Number.ofText a == b
  | a, b => strictEquals a b

/-- Equality after conversion. The nullish values are equal to each other and to
    nothing else; a condition counts as its number; a container meets a primitive
    value as its text. -/
def looseEquals (h : Heap) (a b : Value) : Bool :=
  if a.isNullish || b.isNullish then a.isNullish && b.isNullish
  else
    let a := a.conditionAsNumber
    let b := b.conditionAsNumber
    if a.isPrimitive || b.isPrimitive then equalPrimitives (a.toPrimitive h) (b.toPrimitive h)
    else strictEquals a b

/-- The order of two numbers, none if one is `NaN`. -/
def compareNumbers? (a b : Float) : Option Ordering :=
  if a < b then some .lt
  else if a > b then some .gt
  else if a == b then some .eq
  else none

/-- The order of two values: by characters if both are texts once primitive, by
    number otherwise. -/
def compare? (h : Heap) (a b : Value) : Option Ordering :=
  match a.toPrimitive h, b.toPrimitive h with
  | .text a, .text b => some (compareOfLessAndEq a b)
  | a, b => compareNumbers? (a.toNumber h) (b.toNumber h)

/-- Whether a value is a text. -/
def isText : Value → Bool
  | .text _ => true
  | _ => false

/-- The sum of two values: their texts one after the other if one is a text once
    primitive, their numbers added otherwise. -/
def add (h : Heap) (a b : Value) : Value :=
  let a := a.toPrimitive h
  let b := b.toPrimitive h
  if a.isText || b.isText then .text (a.display h ++ b.display h)
  else .number (a.toNumber h + b.toNumber h)

/-- The structure of a value. There is none for a value with a container that contains
    itself. -/
def inspect? (h : Heap) (value : Value) : Option String := (h.snapshot value).inspect?

/-- The structure of a value that has one. -/
def inspect (h : Heap) (value : Value) : String := (value.inspect? h).getD ""

/-- The JSON document of a value. There is none for a value with a container that
    contains itself. -/
def json? (h : Heap) (value : Value) : Option Json := (h.snapshot value).json?

/-- The JSON document of a value that has one. -/
def json (h : Heap) (value : Value) : Json := (value.json? h).getD .null

end ReactiveTemplate.Value

namespace ReactiveTemplate

mutual

/-- The datum of a JSON document. -/
def Datum.ofJson : Json → Datum
  | .null => .null
  | .bool b => .bool b
  | .integer n => .number (Number.Decimal.toFloat ⟨decide (n < 0), n.natAbs, 0⟩)
  | .real x => .number x
  | .text t => .text t
  | .array items => .array (Datum.ofJsonItems items)
  | .object fields => .object (Datum.ofJsonFields fields)

/-- The data of the items of a JSON array. -/
def Datum.ofJsonItems : List Json → List Datum
  | [] => []
  | item :: rest => Datum.ofJson item :: Datum.ofJsonItems rest

/-- The data of the fields of a JSON object. -/
def Datum.ofJsonFields : List (String × Json) → List (String × Datum)
  | [] => []
  | (name, value) :: rest => (name, Datum.ofJson value) :: Datum.ofJsonFields rest

end

end ReactiveTemplate
